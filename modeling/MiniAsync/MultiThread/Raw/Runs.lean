/-
  Runs of the raw wakers of the multi-threaded runtime.

  In a state that meets the invariant `Inv`, whatever the rules of ownership allow can
  be done (`exists_step`, with one lemma for each operation), and the invariant holds
  again (`Moved`). So no access ever misses (`raw_calls_never_miss`).
-/
import MiniAsync.MultiThread.Raw.Access

namespace MiniAsync.MultiThread.Raw

open Memory Trace Kernel

/-- The invariant of all runs. -/
structure Inv (w : World) : Prop where
  sound : Sound w.mem (w.roots : Multiset Addr)
  handles : ∀ hd ∈ w.handles, Is w.mem hd.addr hd.tag
  borrows : ∀ a ∈ w.borrowed, a ∈ w.handles.map Handle.addr
  calls : ∀ c ∈ w.calls, c.Ok w.mem

/-- Who holds the `SharedState` can change its map. -/
abbrev World.Holder (w : World) (b : Addr) : Prop := Handle.shared b ∈ w.handles

/-- What an operation does. -/
structure Moved (w w' : World) : Prop where
  inv : Inv w'
  change : Change w.Holder w.mem w'.mem
  /-- Handles to an old `SharedState` come from others. -/
  shared : ∀ b < w.mem.next, Handle.shared b ∈ w'.handles → Handle.shared b ∈ w.handles

section Rules

variable {w w' : World} {m' : Heap} {i : ℕ} {hd : Handle}

theorem addr_mem_roots (h : hd ∈ w.handles) : hd.addr ∈ w.roots :=
  List.mem_append_left _ (List.mem_append_left _ (List.mem_map_of_mem h))

theorem owned_mem_roots {c : Call} (hc : c ∈ w.calls) {a : Addr} (ha : a ∈ c.owned) :
    a ∈ w.roots :=
  List.mem_append_right _ (List.mem_flatMap.mpr ⟨c, hc, ha⟩)

/-- The rule for all operations. -/
theorem Inv.move (h : Inv w) (hc : Change w.Holder w.mem w'.mem)
    (hs : Sound w'.mem (w'.roots : Multiset Addr))
    (hhandles : ∀ hd ∈ w'.handles, hd ∈ w.handles ∨
      Is w'.mem hd.addr hd.tag ∧ (hd.tag = .shared → hd ∈ w.handles ∨ w.mem.next ≤ hd.addr))
    (hborrows : ∀ a ∈ w'.borrowed, a ∈ w'.handles.map Handle.addr)
    (hcalls : ∀ c ∈ w'.calls, c ∈ w.calls ∨ c.Ok w'.mem) : Moved w w' := by
  -- the addresses that are held are there
  have halive : ∀ a ∈ w'.roots, w'.mem.view a ≠ none := fun a ha =>
    hs.owned.view_ne_none (Multiset.mem_coe.mpr ha)
  refine ⟨⟨hs, fun hd hhd => ?_, hborrows, fun c hc' => ?_⟩, hc, fun b hb hsh => ?_⟩
  · rcases hhandles hd hhd with hold | ⟨his, -⟩
    · exact (h.handles hd hold).change hc h.sound.owned fun _ => halive _ (addr_mem_roots hhd)
    · exact his
  · rcases hcalls c hc' with hold | hok
    · refine (h.calls c hold).change hc h.sound.owned hs.owned fun b hb _ => halive b ?_
      rcases List.mem_append.mp hb with hb | hb
      · have hmem := hborrows b (List.mem_flatMap.mpr ⟨c, hc', hb⟩)
        exact List.mem_append_left _ (List.mem_append_left _ hmem)
      · exact owned_mem_roots hc' hb
    · exact hok
  · rcases hhandles _ hsh with hold | ⟨-, hnew⟩
    · exact hold
    · exact (hnew rfl).resolve_right (Nat.not_le.mpr hb)

theorem coe_roots (w : World) : (w.roots : Multiset Addr) =
    (w.handles.map Handle.addr : List Addr) + (w.forgotten.map Handle.addr : List Addr) +
      (w.calls.flatMap Call.owned : List Addr) := by
  rw [World.roots, ← Multiset.coe_add, ← Multiset.coe_add]

theorem roots_add (w : World) (m : Heap) (hs : List Handle) (cs : List Call) :
    ((w.add m hs cs).roots : Multiset Addr) =
      (hs.map Handle.addr : List Addr) + (cs.flatMap Call.owned : List Addr) + w.roots := by
  simp only [coe_roots, World.add, List.map_append, List.flatMap_append, ← Multiset.coe_add]
  ac_rfl

theorem roots_eraseHandle (hi : w.handles[i]? = some hd) :
    (w.roots : Multiset Addr) = hd.addr ::ₘ ((w.eraseHandle i).roots : Multiset Addr) := by
  obtain ⟨hlt, hget⟩ := List.getElem?_eq_some_iff.mp hi
  have hperm := (List.getElem_cons_eraseIdx_perm hlt).map Handle.addr
  rw [hget, List.map_cons] at hperm
  rw [coe_roots, coe_roots, ← Multiset.coe_eq_coe.mpr hperm, ← Multiset.cons_coe,
    Multiset.cons_add, Multiset.cons_add]
  rfl

theorem roots_eraseCall {j : ℕ} {c : Call} (hj : w.calls[j]? = some c) :
    (w.roots : Multiset Addr) =
      (c.owned : Multiset Addr) + ((w.eraseCall j).roots : Multiset Addr) := by
  obtain ⟨hlt, hget⟩ := List.getElem?_eq_some_iff.mp hj
  have hperm := (List.getElem_cons_eraseIdx_perm hlt).flatMap_right Call.owned
  rw [hget, List.flatMap_cons] at hperm
  rw [coe_roots, coe_roots, ← Multiset.coe_eq_coe.mpr hperm, ← Multiset.coe_add]
  simp only [World.eraseCall]
  ac_rfl

/-- The rule for operations that give no handle up. -/
theorem Inv.add (h : Inv w) {hs : List Handle} {cs : List Call}
    (hc : Change w.Holder w.mem m')
    (hsound : Sound m'
      ((hs.map Handle.addr : List Addr) + (cs.flatMap Call.owned : List Addr) + w.roots))
    (hhs : ∀ hd ∈ hs,
      Is m' hd.addr hd.tag ∧ (hd.tag = .shared → hd ∈ w.handles ∨ w.mem.next ≤ hd.addr))
    (hcs : ∀ c ∈ cs, c.Ok m' ∧ ∀ a ∈ c.borrows, a ∈ w.handles.map Handle.addr) :
    Moved w (w.add m' hs cs) := by
  refine h.move hc ?_ (fun hd hhd => ?_) (fun a ha => ?_) fun c hc => ?_
  · rw [roots_add]
    exact hsound
  · exact (List.mem_append.mp hhd).imp id (hhs hd)
  · refine List.map_append ▸ List.mem_append_left _ ?_
    rw [World.borrowed, World.add, List.flatMap_append] at ha
    rcases List.mem_append.mp ha with ha | ha
    · exact h.borrows a ha
    · obtain ⟨c, hc, ha⟩ := List.mem_flatMap.mp ha
      exact (hcs c hc).2 a ha
  · exact (List.mem_append.mp hc).imp id fun hc => (hcs c hc).1

/-- An operation that only changes the memory. -/
theorem Inv.access (h : Inv w) (hs : Sound m' w.roots) (hk : Keeps w.Holder w.mem m') :
    Moved w (w.add m' [] []) :=
  h.add hk.toChange (by simpa using hs) (fun hd hhd => by cases hhd) fun c hc => by cases hc

/-- An operation that makes a handle. -/
theorem Inv.addHandle (h : Inv w) (hd : Handle) (hs : Sound m' (hd.addr ::ₘ w.roots))
    (hk : Keeps w.Holder w.mem m') (his : Is m' hd.addr hd.tag)
    (hshared : hd.tag = .shared → hd ∈ w.handles ∨ w.mem.next ≤ hd.addr) :
    Moved w (w.add m' [hd] []) := by
  refine h.add hk.toChange (by simpa using hs) (fun hd' hhd' => ?_) fun c hc => by cases hc
  rw [List.mem_singleton.mp hhd']
  exact ⟨his, hshared⟩

/-- An operation that starts calls. -/
theorem Inv.addCalls (h : Inv w) {cs : List Call}
    (hs : Sound m' ((cs.flatMap Call.owned : List Addr) + w.roots))
    (hk : Keeps w.Holder w.mem m')
    (hcs : ∀ c ∈ cs, c.Ok m' ∧ ∀ a ∈ c.borrows, a ∈ w.handles.map Handle.addr) :
    Moved w (w.add m' [] cs) := by
  refine h.add hk.toChange ?_ (fun hd hhd => by cases hhd) hcs
  rw [List.map_nil, Multiset.coe_nil, zero_add]
  exact hs

theorem mem_handles_map (hi : w.handles[i]? = some hd) : hd.addr ∈ w.handles.map Handle.addr :=
  List.mem_map_of_mem (List.mem_of_getElem? hi)

/-- The value that a handle refers to. -/
theorem Inv.is (h : Inv w) (hi : w.handles[i]? = some hd) : Is w.mem hd.addr hd.tag :=
  h.handles hd (List.mem_of_getElem? hi)

/-- A handle is given up: everything that a call has borrowed is still held. -/
theorem borrows_eraseHandle (h : Inv w) (hi : w.handles[i]? = some hd) (hfree : w.Free hd.addr) :
    ∀ a ∈ w.borrowed, a ∈ (w.handles.eraseIdx i).map Handle.addr := by
  intro a ha
  obtain ⟨hlt, hget⟩ := List.getElem?_eq_some_iff.mp hi
  have hperm := (List.getElem_cons_eraseIdx_perm hlt).map Handle.addr
  rw [hget, List.map_cons] at hperm
  rcases eq_or_ne a hd.addr with rfl | hne
  · have htwo := hfree ha
    rw [← hperm.count_eq, List.count_cons_self] at htwo
    exact List.count_pos_iff.mp (Nat.lt_of_succ_le (Nat.le_of_succ_le_succ htwo))
  · exact (List.mem_cons.mp (hperm.mem_iff.mpr (h.borrows a ha))).resolve_left hne

/-- The rule for operations that give the handle `i` up, and go on as a call. -/
theorem Inv.giveUp (h : Inv w) {c : Call} (hi : w.handles[i]? = some hd) (hfree : w.Free hd.addr)
    (hborrows : c.borrows = []) (hk : Keeps w.Holder w.mem m')
    (hs : Sound m' ((c.owned : Multiset Addr) + (w.eraseHandle i).roots)) (hok : c.Ok m') :
    Moved w ((w.eraseHandle i).add m' [] [c]) := by
  refine h.move hk.toChange ?_ (fun hd' hhd' => .inl ?_) (fun a ha => ?_) fun c' hc' => ?_
  · rw [roots_add, List.flatMap_singleton, List.map_nil, Multiset.coe_nil, zero_add]
    exact hs
  · rw [World.add, List.append_nil] at hhd'
    exact List.mem_of_mem_eraseIdx hhd'
  · rw [World.borrowed, World.add, List.flatMap_append, List.flatMap_singleton, hborrows,
      List.append_nil] at ha
    rw [World.add, List.append_nil]
    exact borrows_eraseHandle h hi hfree a ha
  · rcases List.mem_append.mp hc' with hc' | hc'
    · exact .inl hc'
    · rw [List.mem_singleton.mp hc']
      exact .inr hok

/-- The memory, with the handle `i` among the roots. -/
theorem Inv.sound_eraseHandle (h : Inv w) (hi : w.handles[i]? = some hd) :
    Sound w.mem (hd.addr ::ₘ ((w.eraseHandle i).roots : Multiset Addr)) := by
  rw [← roots_eraseHandle hi]
  exact h.sound

/-- Who writes a map has borrowed a handle to it. -/
theorem Inv.shared_of_maps (h : Inv w) {c : Call} (hc : c ∈ w.calls) {b : Addr}
    (hb : b ∈ c.maps) : w.Holder b := by
  cases c with
  | insert sh id t =>
    obtain rfl := List.mem_singleton.mp hb
    have hborrow := h.borrows b (List.mem_flatMap.mpr ⟨_, hc, List.mem_singleton_self b⟩)
    obtain ⟨hd, hhd, haddr⟩ := List.mem_map.mp hborrow
    have htag := (haddr ▸ h.handles hd hhd).tag_unique (h.calls _ hc).1
    cases hd with
    | shared a => exact haddr ▸ hhd
    | waker _ | task _ | sleep _ | socket _ => cases htag
  | _ => cases hb

end Rules

/-! ### The operations -/

section New

variable {m : Heap} {R : Multiset Addr} {S : Addr → Prop} {a : Addr}

/-- A new task, with its state and its waker. -/
theorem exists_newTask (x : TaskId) (h : Sound m R) (hsh : Is m a .shared) :
    ∃ t m', World.newTask m a x = some (t, m') ∧ Sound m' (t ::ₘ R) ∧ Keeps S m m' ∧
      Linked m' a t := by
  -- the state, with two owners
  obtain ⟨hs₁, hk₁, hst⟩ := alloc_cell (S := S) (v := .state .scheduled) (R := R)
    (by simpa [refs, Obj.links] using h) (fun p hp => by cases hp)
  have hst₁ : Is _ m.next .state := ⟨_, hst, rfl⟩
  obtain ⟨m₂, hretain₂, hs₂, hk₂⟩ := exists_retain (S := S) hs₁ hst
  have hst₂ := hst₁.keep hs₁ hk₂
  -- the reference of the waker to the `SharedState`
  obtain ⟨s, hv⟩ := ((hsh.keep h hk₁).keep hs₁ hk₂).exists_shared
  obtain ⟨m₃, hretain₃, hs₃, hk₃⟩ := exists_retain (S := S) hs₂ hv
  have hst₃ := hst₂.keep hs₂ hk₃
  have hsh₃ := ((hsh.keep h hk₁).keep hs₁ hk₂).keep hs₂ hk₃
  -- the waker and the task
  obtain ⟨hs₄, hk₄, hwk⟩ := alloc_cell (S := S) (v := .wakerData x m.next a) (R := m.next ::ₘ R)
    (by simpa [refs, Obj.links, ← Multiset.cons_coe, Multiset.cons_swap] using hs₃) (by
      intro p hp
      simp only [Obj.links, List.mem_cons, List.not_mem_nil, or_false] at hp
      rcases hp with rfl | rfl
      · exact ⟨hst₃, fun htask => by cases htask⟩
      · exact ⟨hsh₃, fun htask => by cases htask⟩)
  have hst₄ := hst₃.keep hs₃ hk₄
  obtain ⟨hs₅, hk₅, ht⟩ := alloc_cell (S := S) (v := .task x m.next m₃.next) (R := R)
    (by simpa [refs, Obj.links, ← Multiset.cons_coe, Multiset.cons_swap] using hs₄) (by
      intro p hp
      simp only [Obj.links, List.mem_cons, List.not_mem_nil, or_false] at hp
      rcases hp with rfl | rfl
      · exact ⟨hst₄, fun htask => by cases htask⟩
      · exact ⟨⟨_, hwk, rfl⟩, fun htask => by cases htask⟩)
  have hwk₅ := hk₅.toChange.view_eq hs₄.owned hwk (.inl rfl)
    (hk₅.noFree _ (by rw [hwk]; exact Option.some_ne_none _))
  refine ⟨_, _, ?_, hs₅, ?_, x, m.next, m₃.next, ht, hst₄.keep hs₄ hk₅, hwk₅⟩
  · have hretain₂ : (m.alloc (.shared 1 (.state .scheduled))).2.retain m.next = some m₂ := hretain₂
    simp only [World.newTask, Option.bind_eq_bind]
    rw [show (m.alloc (.shared 1 (Obj.state .scheduled))).1 = m.next from rfl, hretain₂]
    simp only [Option.bind_some, hretain₃]
    rfl
  · have hk₃₅ := Keeps.trans hs₃ hk₄ hs₄ hk₅ hs₅
    have hk₂₅ := Keeps.trans hs₂ hk₃ hs₃ hk₃₅ hs₅
    have hk₁₅ := Keeps.trans hs₁ hk₂ hs₂ hk₂₅ hs₅
    exact .trans h hk₁ hs₁ hk₁₅ hs₅

/-- A new timer, with a reference in the inbox. -/
theorem exists_newTimer (h : Sound m R) (hsh : Is m a .shared) :
    ∃ t m', World.newTimer m a = some (t, m') ∧ Sound m' (t ::ₘ R) ∧ Keeps S m m' ∧
      Is m' t .timer := by
  obtain ⟨hs₁, hk₁, ht⟩ := alloc_cell (S := S) (v := .timer none) (R := R)
    (by simpa [refs, Obj.links] using h) (fun p hp => by cases hp)
  have ht₁ : Is _ m.next .timer := ⟨_, ht, rfl⟩
  obtain ⟨m₂, hretain, hs₂, hk₂⟩ := exists_retain (S := S) hs₁ ht
  have ht₂ := ht₁.keep hs₁ hk₂
  obtain ⟨s, hv⟩ := ((hsh.keep h hk₁).keep hs₁ hk₂).exists_shared
  have hrefs : (m.next ::ₘ m.next ::ₘ R) + (s.timers : List Addr) =
      (m.next ::ₘ R) + ((s.timers ++ [m.next] : List Addr) : Multiset Addr) := by
    rw [← Multiset.coe_add, Multiset.coe_singleton, ← Multiset.singleton_add,
      ← Multiset.singleton_add]
    ac_rfl
  obtain ⟨m₃, hm₃, hs₃, hk₃⟩ := exists_writeTimers (S := S) (s.timers ++ [m.next]) hs₂ hv
    (fun t ht => (List.mem_append.mp ht).imp_right fun ht => by
      rw [List.mem_singleton.mp ht]
      exact ht₂) hrefs
  refine ⟨m.next, m₃, ?_, hs₃, ?_, ht₂.keep hs₂ hk₃⟩
  · have hretain : (m.alloc (.shared 1 (.timer none))).2.retain m.next = some m₂ := hretain
    simp only [World.newTimer, Option.bind_eq_bind]
    rw [show (m.alloc (.shared 1 (Obj.timer none))).1 = m.next from rfl, hretain]
    simp only [Option.bind_some, readShared_eq hv, hm₃]
  · exact .trans h hk₁ hs₁ (.trans hs₁ hk₂ hs₂ hk₃ hs₃) hs₃

end New

section Ops

variable {w w' : World} {i j : ℕ} {a t r ptr : Addr} {hd : Handle}

theorem exists_step_newRuntime (h : Inv w) :
    ∃ w', w.step .newRuntime = some w' ∧ Moved w w' := by
  obtain ⟨hs₁, hk₁, hr⟩ := alloc_cell (S := w.Holder) (v := .reactor [])
    (R := (w.roots : Multiset Addr)) (by simpa [refs, Obj.links] using h.sound)
    (fun p hp => by cases hp)
  obtain ⟨hs₂, hk₂, hsh⟩ := alloc_cell (S := w.Holder)
    (v := .shared ⟨[], .new, [], w.mem.next⟩) (R := (w.roots : Multiset Addr))
    (by simpa [refs, Obj.links] using hs₁) (fun p hp => by
      rw [List.mem_singleton.mp hp]
      exact ⟨⟨_, hr, rfl⟩, fun htask => by cases htask⟩)
  exact ⟨_, rfl, h.addHandle (.shared (w.mem.next + 1)) hs₂ (.trans h.sound hk₁ hs₁ hk₂ hs₂)
    ⟨_, hsh, rfl⟩ fun _ => .inr (Nat.le_succ _)⟩

theorem exists_step_newWorker (h : Inv w) (hi : w.handles[i]? = some (.shared a)) :
    ∃ w', w.step (.newWorker i) = some w' ∧ Moved w w' := by
  have his : Is w.mem a .shared := h.is hi
  obtain ⟨s, hv⟩ := his.exists_shared
  obtain ⟨m', hretain, hs, hk⟩ := exists_retain h.sound hv
  refine ⟨w.add m' [.shared a] [], ?_, h.addHandle _ hs hk (his.keep h.sound hk) fun _ => .inl ?_⟩
  · simp only [World.step, hi, Option.bind_eq_bind, hretain, Option.bind_some]
  · exact List.mem_of_getElem? hi

theorem exists_step_spawn (h : Inv w) (hi : w.handles[i]? = some (.shared a)) (x : TaskId) :
    ∃ w', w.step (.spawn i x) = some w' ∧ Moved w w' := by
  have his : Is w.mem a .shared := h.is hi
  obtain ⟨t, m', hnew, hs, hk, hlinked⟩ := exists_newTask x h.sound his
  refine ⟨w.add m' [] [.insert a x t], ?_, h.addCalls ?_ hk fun c hc => ?_⟩
  · simp only [World.step, hi, Option.bind_eq_bind, hnew, Option.bind_some]
  · simpa [Call.owned] using hs
  · rw [List.mem_singleton.mp hc]
    refine ⟨⟨his.keep h.sound hk, hlinked⟩, fun b hb => ?_⟩
    rw [List.mem_singleton.mp hb]
    exact mem_handles_map hi

theorem exists_step_dequeue (h : Inv w) (hi : w.handles[i]? = some (.shared a)) :
    ∃ w', w.step (.dequeue i) = some w' ∧ Moved w w' := by
  have his : Is w.mem a .shared := h.is hi
  obtain ⟨s, hv⟩ := his.exists_shared
  obtain ⟨m', hm', hs, hk⟩ := exists_writeQueue h.sound hv s.queue.dequeue.2
  refine ⟨w.add m' [] [], ?_, h.access hs hk⟩
  simp only [World.step, hi, readShared_eq hv, Option.bind_eq_bind, hm', Option.bind_some]

theorem exists_step_lookup (h : Inv w) (hi : w.handles[i]? = some (.shared a)) (x : TaskId) :
    ∃ w', w.step (.lookup i x) = some w' ∧ Moved w w' := by
  have his : Is w.mem a .shared := h.is hi
  obtain ⟨s, hv⟩ := his.exists_shared
  simp only [World.step, hi, readShared_eq hv, Option.bind_eq_bind, Option.bind_some]
  cases hfind : s.tasks.find? (·.1 = x) with
  | none =>
    exact ⟨w, rfl, h.move h.sound.refl.toChange h.sound (fun hd hhd => .inl hhd) h.borrows
      fun c hc => .inl hc⟩
  | some entry =>
    have hentry := List.mem_of_find?_eq_some hfind
    have htask : Is w.mem entry.2 .task := by
      refine ((h.sound.typed _ _ _ hv).2 (entry.2, .task) ?_).1
      exact List.mem_cons_of_mem _ (List.mem_append_left _ (List.mem_map_of_mem hentry))
    obtain ⟨id, st, wk, hv'⟩ := htask.exists_task
    obtain ⟨m', hretain, hs, hk⟩ := exists_retain h.sound hv'
    refine ⟨w.add m' [.task entry.2] [], ?_, h.addHandle _ hs hk (htask.keep h.sound hk)
      fun htag => by cases htag⟩
    simp only [hretain, Option.bind_some]

theorem exists_step_setStatus (h : Inv w) (hi : w.handles[i]? = some (.task t))
    (status : Status) : ∃ w', w.step (.setStatus i status) = some w' ∧ Moved w w' := by
  have his : Is w.mem t .task := h.is hi
  obtain ⟨id, st, wk, hv⟩ := his.exists_task
  have hst := ((h.sound.typed _ _ _ hv).2 (st, .state) (by simp [Obj.links])).1
  obtain ⟨m', hm', hs, hk⟩ := exists_writeState h.sound hst status
  refine ⟨w.add m' [] [], ?_, h.access hs hk⟩
  simp only [World.step, hi, readTask_eq hv, Option.bind_eq_bind, hm', Option.bind_some]

/-- A list of references is dropped. -/
theorem Inv.addDropping (h : Inv w) {m' : Heap} {old : List Addr}
    (hs : Sound m' ((old : Multiset Addr) + w.roots)) (hk : Keeps w.Holder w.mem m') :
    Moved w (w.add m' [] [.dropping old]) := by
  refine h.addCalls ?_ hk fun c hc => ?_
  · rw [List.flatMap_singleton]
    exact hs
  · rw [List.mem_singleton.mp hc]
    exact ⟨trivial, fun b hb => by cases hb⟩

theorem exists_step_remove (h : Inv w) (hi : w.handles[i]? = some (.shared a)) (x : TaskId) :
    ∃ w', w.step (.remove i x) = some w' ∧ Moved w w' := by
  obtain ⟨old, m', hm', hs, hk⟩ := exists_replaceTasks (S := w.Holder) x []
    (R := (w.roots : Multiset Addr)) (List.mem_of_getElem? hi) (by simpa using h.sound) (h.is hi)
    (fun entry he => by cases he)
  refine ⟨w.add m' [] [.dropping old], ?_, h.addDropping hs hk⟩
  simp only [World.step, hi, Option.bind_eq_bind, hm', Option.bind_some]

theorem exists_step_sleep (h : Inv w) (hi : w.handles[i]? = some (.shared a)) :
    ∃ w', w.step (.sleep i) = some w' ∧ Moved w w' := by
  have his : Is w.mem a .shared := h.is hi
  obtain ⟨t, m', hnew, hs, hk, ht⟩ := exists_newTimer h.sound his
  refine ⟨w.add m' [.sleep t] [], ?_, h.addHandle _ hs hk ht fun htag => by cases htag⟩
  simp only [World.step, hi, Option.bind_eq_bind, hnew, Option.bind_some]

theorem exists_step_arm (h : Inv w) (hi : w.handles[i]? = some (.waker ptr))
    (hj : w.handles[j]? = some (.sleep t)) (hfree : w.Free ptr) :
    ∃ w', w.step (.arm i j) = some w' ∧ Moved w w' := by
  have ht : Is w.mem t .timer := h.is hj
  obtain ⟨old, m', hm', -, hs, hk⟩ := exists_replaceTimer (S := w.Holder) (some ptr)
    (R := ((w.eraseHandle i).roots : Multiset Addr)) (h.sound_eraseHandle hi) ht
    (fun ptr' hptr => by
      cases hptr
      exact h.is hi)
  refine ⟨(w.eraseHandle i).add m' [] [.dropping old.toList], ?_,
    h.giveUp hi hfree rfl hk hs trivial⟩
  simp only [World.step, hi, hj, Option.bind_eq_bind, hm', Option.bind_some]
  exact if_pos hfree

theorem exists_step_fire (h : Inv w) (hi : w.handles[i]? = some (.shared a)) (n : ℕ) :
    ∃ w', w.step (.fire i n) = some w' ∧ Moved w w' := by
  have his : Is w.mem a .shared := h.is hi
  obtain ⟨s, hv⟩ := his.exists_shared
  simp only [World.step, hi, readShared_eq hv, Option.bind_eq_bind, Option.bind_some]
  cases hn : s.timers[n]? with
  | none =>
    exact ⟨w, rfl, h.move h.sound.refl.toChange h.sound (fun hd hhd => .inl hhd) h.borrows
      fun c hc => .inl hc⟩
  | some t =>
    have ht : Is w.mem t .timer := by
      refine ((h.sound.typed _ _ _ hv).2 (t, .timer) ?_).1
      exact List.mem_cons_of_mem _ (List.mem_append_right _
        (List.mem_map_of_mem (List.mem_of_getElem? hn)))
    -- the entry goes from the wheel to the call
    have hrefs : (w.roots : Multiset Addr) + (s.timers : List Addr) =
        (t ::ₘ (w.roots : Multiset Addr)) + (s.timers.eraseIdx n : List Addr) := by
      obtain ⟨hlt, hget⟩ := List.getElem?_eq_some_iff.mp hn
      have hperm := List.getElem_cons_eraseIdx_perm hlt
      rw [hget] at hperm
      rw [← Multiset.coe_eq_coe.mpr hperm, ← Multiset.cons_coe, Multiset.add_cons,
        Multiset.cons_add]
    obtain ⟨m', hm', hs, hk⟩ := exists_writeTimers (S := w.Holder) (s.timers.eraseIdx n) h.sound hv
      (fun t ht => .inl (List.mem_of_mem_eraseIdx ht)) hrefs
    refine ⟨w.add m' [] [.fire t], ?_, h.addCalls ?_ hk fun c hc => ?_⟩
    · simp only [hm', Option.bind_some]
    · simpa [Call.owned] using hs
    · rw [List.mem_singleton.mp hc]
      exact ⟨ht.keep h.sound hk, fun b hb => by cases hb⟩

theorem exists_step_connect (h : Inv w) (hi : w.handles[i]? = some (.shared a)) :
    ∃ w', w.step (.connect i) = some w' ∧ Moved w w' := by
  have his : Is w.mem a .shared := h.is hi
  obtain ⟨s, wakers, hv, hr, hwakers⟩ := his.exists_shared_reactor h.sound.typed
  obtain ⟨m', hretain, hs, hk⟩ := exists_retain h.sound hwakers
  refine ⟨w.add m' [.socket s.reactor] [], ?_, h.addHandle _ hs hk (hr.keep h.sound hk)
    fun htag => by cases htag⟩
  simp only [World.step, hi, readShared_eq hv, Option.bind_eq_bind, hretain, Option.bind_some]

theorem exists_step_accept (h : Inv w) (hi : w.handles[i]? = some (.socket r)) :
    ∃ w', w.step (.accept i) = some w' ∧ Moved w w' := by
  have hr : Is w.mem r .reactor := h.is hi
  obtain ⟨wakers, hwakers⟩ := hr.exists_reactor
  obtain ⟨m', hretain, hs, hk⟩ := exists_retain h.sound hwakers
  refine ⟨w.add m' [.socket r] [], ?_, h.addHandle _ hs hk (hr.keep h.sound hk)
    fun htag => by cases htag⟩
  simp only [World.step, hi, Option.bind_eq_bind, hretain, Option.bind_some]

theorem exists_step_register (h : Inv w) (hi : w.handles[i]? = some (.waker ptr))
    (hj : w.handles[j]? = some (.socket r)) (hfree : w.Free ptr) (slot : Slot) :
    ∃ w', w.step (.register i j slot) = some w' ∧ Moved w w' := by
  have hr : Is w.mem r .reactor := h.is hj
  obtain ⟨old, m', hm', -, hs, hk⟩ := exists_replaceWakers (S := w.Holder) (· = slot)
    [(slot, ptr)] (R := ((w.eraseHandle i).roots : Multiset Addr))
    (h.sound_eraseHandle hi) hr (fun entry he => by
      rw [List.mem_singleton.mp he]
      exact h.is hi)
  refine ⟨(w.eraseHandle i).add m' [] [.dropping old], ?_, h.giveUp hi hfree rfl hk hs trivial⟩
  simp only [World.step, hi, hj, Option.bind_eq_bind, hm', Option.bind_some]
  exact if_pos hfree

theorem exists_step_wakeSlot (h : Inv w) (hi : w.handles[i]? = some (.shared a)) (slot : Slot) :
    ∃ w', w.step (.wakeSlot i slot) = some w' ∧ Moved w w' := by
  have his : Is w.mem a .shared := h.is hi
  obtain ⟨s, wakers, hv, hr, -⟩ := his.exists_shared_reactor h.sound.typed
  obtain ⟨old, m', hm', hold, hs, hk⟩ := exists_replaceWakers (S := w.Holder) (· = slot)
    [] (R := (w.roots : Multiset Addr)) (by simpa using h.sound) hr
    (fun entry he => by cases he)
  refine ⟨w.add m' [] (old.map (.load none)), ?_, h.addCalls ?_ hk fun c hc => ?_⟩
  · simp only [World.step, hi, readShared_eq hv, Option.bind_eq_bind, hm', Option.bind_some]
  · simpa [List.flatMap_map, Call.owned, Call.ownBox] using hs
  · obtain ⟨ptr, hptr, rfl⟩ := List.mem_map.mp hc
    exact ⟨hold ptr hptr, fun b hb => by cases hb⟩

theorem exists_step_deregister (h : Inv w) (hi : w.handles[i]? = some (.socket r)) (fd : Fd) :
    ∃ w', w.step (.deregister i fd) = some w' ∧ Moved w w' := by
  have hr : Is w.mem r .reactor := h.is hi
  obtain ⟨old, m', hm', -, hs, hk⟩ := exists_replaceWakers (S := w.Holder) (·.1 = fd)
    [] (R := (w.roots : Multiset Addr)) (by simpa using h.sound) hr
    (fun entry he => by cases he)
  refine ⟨w.add m' [] [.dropping old], ?_, h.addDropping hs hk⟩
  simp only [World.step, hi, Option.bind_eq_bind, hm', Option.bind_some]

/-- The waker that a handle gives access to. -/
theorem exists_wakerOf (h : Inv w) (hi : w.handles[i]? = some hd)
    (htag : hd.tag = .waker ∨ hd.tag = .task) :
    ∃ ptr, World.wakerOf w.mem hd = some ptr ∧ Reaches w.mem hd.addr ptr := by
  have his := h.is hi
  cases hd with
  | waker ptr => exact ⟨ptr, rfl, .inl ⟨rfl, his⟩⟩
  | task t =>
    obtain ⟨id, st, wk, hv⟩ := Is.exists_task his
    have hread : readTask w.mem t = some (id, st, wk) := readTask_eq hv
    refine ⟨wk, ?_, .inr ⟨id, st, hv⟩⟩
    rw [World.wakerOf, hread]
    rfl
  | shared _ | sleep _ | socket _ => rcases htag with h | h <;> cases h

/-- A call that borrows a handle. -/
theorem Inv.borrow (h : Inv w) {c : Call} (hi : w.handles[i]? = some hd) (hok : c.Ok w.mem)
    (hborrows : c.borrows = [hd.addr]) (howned : c.owned = []) :
    Moved w (w.add w.mem [] [c]) := by
  refine h.addCalls ?_ h.sound.refl fun c' hc' => ?_
  · rw [List.flatMap_singleton, howned, Multiset.coe_nil, zero_add]
    exact h.sound
  · rw [List.mem_singleton.mp hc']
    refine ⟨hok, fun b hb => ?_⟩
    rw [hborrows] at hb
    rw [List.mem_singleton.mp hb]
    exact mem_handles_map hi

theorem exists_step_clone (h : Inv w) (hi : w.handles[i]? = some hd)
    (htag : hd.tag = .waker ∨ hd.tag = .task) :
    ∃ w', w.step (.clone i) = some w' ∧ Moved w w' := by
  obtain ⟨ptr, hptr, hreach⟩ := exists_wakerOf h hi htag
  refine ⟨w.add w.mem [] [.cloneState hd.addr ptr], ?_, h.borrow hi hreach rfl rfl⟩
  simp only [World.step, hi, Option.bind_eq_bind, hptr, Option.bind_some]

theorem exists_step_wakeByRef (h : Inv w) (hi : w.handles[i]? = some hd)
    (htag : hd.tag = .waker ∨ hd.tag = .task) :
    ∃ w', w.step (.wakeByRef i) = some w' ∧ Moved w w' := by
  obtain ⟨ptr, hptr, hreach⟩ := exists_wakerOf h hi htag
  refine ⟨w.add w.mem [] [.load (some hd.addr) ptr], ?_, h.borrow hi hreach rfl rfl⟩
  simp only [World.step, hi, Option.bind_eq_bind, hptr, Option.bind_some]

theorem exists_step_wake (h : Inv w) (hi : w.handles[i]? = some (.waker ptr))
    (hfree : w.Free ptr) : ∃ w', w.step (.wake i) = some w' ∧ Moved w w' := by
  refine ⟨(w.eraseHandle i).add w.mem [] [.load none ptr], ?_,
    h.giveUp hi hfree rfl h.sound.refl (h.sound_eraseHandle hi) (h.is hi)⟩
  simp only [World.step, hi]
  exact if_pos hfree

theorem exists_step_drop (h : Inv w) (hi : w.handles[i]? = some hd) (hfree : w.Free hd.addr) :
    ∃ w', w.step (.drop i) = some w' ∧ Moved w w' := by
  refine ⟨(w.eraseHandle i).add w.mem [] [.dropping [hd.addr]], ?_,
    h.giveUp hi hfree rfl h.sound.refl (h.sound_eraseHandle hi) trivial⟩
  simp only [World.step, hi]
  exact if_pos hfree

theorem exists_step_forget (h : Inv w) (hi : w.handles[i]? = some hd) (hfree : w.Free hd.addr) :
    ∃ w', w.step (.forget i) = some w' ∧ Moved w w' := by
  refine ⟨{ w.eraseHandle i with forgotten := w.forgotten ++ [hd] }, ?_,
    h.move h.sound.refl.toChange ?_ (fun hd' hhd' => .inl (List.mem_of_mem_eraseIdx hhd'))
      (borrows_eraseHandle h hi hfree) fun c hc => .inl hc⟩
  · simp only [World.step, hi]
    exact if_pos hfree
  · refine Eq.mp (congrArg (Sound w.mem) ?_) h.sound
    rw [roots_eraseHandle hi, coe_roots, coe_roots]
    simp only [World.eraseHandle, List.map_append, List.map_singleton, ← Multiset.coe_add,
      Multiset.coe_singleton, ← Multiset.singleton_add]
    ac_rfl

theorem exists_step_go (h : Inv w) {c : Call} (hj : w.calls[j]? = some c) (spurious : Bool) :
    ∃ w', w.step (.go j spurious) = some w' ∧ Moved w w' := by
  have hcall := List.mem_of_getElem? hj
  have hs := h.sound
  rw [roots_eraseCall hj] at hs
  obtain ⟨n, hn, hstepped⟩ := Call.exists_step spurious (h.calls c hcall) hs
  refine ⟨(w.eraseCall j).add n.mem n.handles n.calls, ?_,
    h.move (hstepped.change.mono fun b hb => ?_) ?_ (fun hd hhd => ?_) (fun a ha => ?_)
      fun c' hc' => ?_⟩
  · simp only [World.step, hj, Option.bind_eq_bind, hn, Option.bind_some]
  · exact h.shared_of_maps hcall hb
  · rw [roots_add]
    exact hstepped.sound
  · refine (List.mem_append.mp hhd).imp id fun hhd => ?_
    obtain ⟨htag, his⟩ := hstepped.handles hd hhd
    exact ⟨his, fun heq => by rw [htag] at heq; cases heq⟩
  · refine List.map_append ▸ List.mem_append_left _ (h.borrows a ?_)
    rw [World.borrowed, World.add, List.flatMap_append] at ha
    rcases List.mem_append.mp ha with ha | ha
    · obtain ⟨c', hc', ha⟩ := List.mem_flatMap.mp ha
      exact List.mem_flatMap.mpr ⟨c', List.mem_of_mem_eraseIdx hc', ha⟩
    · exact List.mem_flatMap.mpr ⟨c, hcall, hstepped.borrows a ha⟩
  · rcases List.mem_append.mp hc' with hc' | hc'
    · exact .inl (List.mem_of_mem_eraseIdx hc')
    · exact .inr (hstepped.calls c' hc')

/-- **No access misses**: whatever the rules of ownership allow can be done. -/
theorem exists_step {op : Op} (h : Inv w) (hcan : w.Can op) :
    ∃ w', w.step op = some w' ∧ Moved w w' := by
  cases op with
  | newRuntime => exact exists_step_newRuntime h
  | newWorker i => exact hcan.elim fun _ hi => exists_step_newWorker h hi
  | spawn i x => exact hcan.elim fun _ hi => exists_step_spawn h hi x
  | dequeue i => exact hcan.elim fun _ hi => exists_step_dequeue h hi
  | lookup i x => exact hcan.elim fun _ hi => exists_step_lookup h hi x
  | setStatus i status => exact hcan.elim fun _ hi => exists_step_setStatus h hi status
  | remove i x => exact hcan.elim fun _ hi => exists_step_remove h hi x
  | sleep i => exact hcan.elim fun _ hi => exists_step_sleep h hi
  | arm i j =>
    obtain ⟨ptr, t, hi, hj, hfree⟩ := hcan
    exact exists_step_arm h hi hj hfree
  | fire i n => exact hcan.elim fun _ hi => exists_step_fire h hi n
  | connect i => exact hcan.elim fun _ hi => exists_step_connect h hi
  | accept i => exact hcan.elim fun _ hi => exists_step_accept h hi
  | register i j slot =>
    obtain ⟨ptr, r, hi, hj, hfree⟩ := hcan
    exact exists_step_register h hi hj hfree slot
  | wakeSlot i slot => exact hcan.elim fun _ hi => exists_step_wakeSlot h hi slot
  | deregister i fd => exact hcan.elim fun _ hi => exists_step_deregister h hi fd
  | clone i => exact hcan.elim fun _ hi => exists_step_clone h hi.1 hi.2
  | wakeByRef i => exact hcan.elim fun _ hi => exists_step_wakeByRef h hi.1 hi.2
  | wake i => exact hcan.elim fun _ hi => exists_step_wake h hi.1 hi.2
  | drop i => exact hcan.elim fun _ hi => exists_step_drop h hi.1 hi.2
  | forget i => exact hcan.elim fun _ hi => exists_step_forget h hi.1 hi.2
  | go j spurious => exact hcan.elim fun _ hj => exists_step_go h hj spurious

/-- What has been done was allowed. -/
theorem can_of_step {op : Op} (hs : w.step op = some w') : w.Can op := by
  cases op with
  | newRuntime => trivial
  | newWorker i | spawn i _ | dequeue i | lookup i _ | remove i _ | sleep i | fire i _ | connect i
  | wakeSlot i _ | setStatus i _ | accept i | deregister i _ | go i _ =>
    rw [World.step] at hs
    split at hs
    · rename_i a hi
      exact ⟨a, hi⟩
    · cases hs
  | arm i j | register i j _ =>
    rw [World.step] at hs
    split at hs
    · rename_i ptr t hi hj
      split_ifs at hs with hfree
      exact ⟨ptr, t, hi, hj, hfree⟩
    · cases hs
  | clone i | wakeByRef i =>
    rw [World.step] at hs
    split at hs
    · rename_i hd hi
      refine ⟨hd, hi, ?_⟩
      cases hd <;> first | exact .inl rfl | exact .inr rfl | cases hs
    · cases hs
  | wake i | drop i | forget i =>
    rw [World.step] at hs
    split at hs
    · rename_i hd hi
      split_ifs at hs with hfree
      exact ⟨hd, hi, hfree⟩
    · cases hs

theorem Inv.of_step {op : Op} (h : Inv w) (hs : w.step op = some w') : Moved w w' := by
  obtain ⟨w'', hs', hmoved⟩ := exists_step h (can_of_step hs)
  rw [hs] at hs'
  cases hs'
  exact hmoved

end Ops

theorem inv_new : Inv World.new where
  sound := ⟨Mem.owned_empty, fun _ _ _ hv => by cases hv⟩
  handles := fun _ hhd => by cases hhd
  borrows := fun _ ha => by cases ha
  calls := fun _ hc => by cases hc

section Runs

variable {h : List (Op × Unit)} {w : World}

theorem run_inv (hr : Run (ofStep World.step) World.new h w) : Inv w := by
  induction hr with
  | nil => exact inv_new
  | snoc _ hs ih => exact (ih.of_step hs).inv

/-- **The wakers are safe.** In every interleaving of the calls, what can be done next is exactly
what the rules of ownership and borrowing allow: no access ever meets a cell that has been freed. -/
theorem raw_calls_never_miss (hr : Run (ofStep World.step) World.new h w) (op : Op) :
    (∃ w', w.step op = some w') ↔ w.Can op := by
  constructor
  · rintro ⟨w', hs⟩
    exact can_of_step hs
  · intro hcan
    obtain ⟨w', hs, -⟩ := exists_step (run_inv hr) hcan
    exact ⟨w', hs⟩

/-- A runtime with one task that has been spawned, and no call under way. -/
def spawned : List Op :=
  [.newRuntime, .spawn 0 7, .go 0 false, .go 0 false, .go 0 false, .go 0 false]

/-- The waker of a task that is being polled is cloned; the clone goes on after the task has been
looked up. -/
theorem raw_calls_never_miss_clone :
    ∃ h w, Run (ofStep World.step) World.new h w ∧ w.calls = [.cloneState 4 3] ∧
      ∃ w', w.step (.go 0 false) = some w' := by
  obtain ⟨h, w, hr, hcalls⟩ := exists_run_of_foldlM (f := World.step) (s := World.new)
    (spawned ++ [.lookup 0 7, .clone 1]) (fun w => w.calls = [.cloneState 4 3]) (by decide)
  exact ⟨h, w, hr, hcalls,
    (raw_calls_never_miss hr (.go 0 false)).mpr ⟨.cloneState 4 3, by rw [hcalls]; rfl⟩⟩

end Runs

end MiniAsync.MultiThread.Raw
