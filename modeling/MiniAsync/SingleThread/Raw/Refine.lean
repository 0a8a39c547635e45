/-
  The pointers of the raw wakers implement the ideal ones.

  `Rel` relates a `World` and an `Ideal`: what has a name is kept at an address, a
  handle is a pointer for a reference, and the counts are right for the handles.
  Each function of the vtables has a lemma (`exists_clone`, `exists_wakeByRef`,
  `exists_dropHandle`), and there is a rule for each way in which an operation can
  change the world (`Rel.write`, `Rel.grow`, `Rel.fresh`, `Rel.shrink`), and then one
  for each operation, which `exists_step` puts together. The results are about all
  sequences of operations that one thread makes: `raw_wakers_refine` and
  `raw_wakers_free_all`.
-/
import MiniAsync.SingleThread.Raw.Basic

namespace MiniAsync.SingleThread.Raw

open Memory Trace

/-! ### The pointers implement it -/

namespace Ideal

/-- The content of what is named. -/
def content (s : Ideal) : Name → Content
  | .queue k => .queue (s.queue k)
  | .flag k => .flag (s.flag k)

/-- The names that have been given. -/
def Used (s : Ideal) : Name → Prop
  | .queue k => k < s.queues
  | .flag k => k < s.flags

theorem content_setQueue (s : Ideal) (k : ℕ) (q : ReadyQueue) :
    (s.setQueue k q).content = Function.update s.content (.queue k) (.queue q) := by
  funext n
  cases n with
  | queue k' =>
    rcases eq_or_ne k' k with rfl | hne
    · rw [Function.update_self]
      exact congrArg Content.queue (Function.update_self ..)
    · rw [Function.update_of_ne fun h => hne (Name.queue.inj h)]
      exact congrArg Content.queue (Function.update_of_ne hne ..)
  | flag k' => rw [Function.update_of_ne (by simp)]; rfl

theorem content_setFlag (s : Ideal) (k : ℕ) (b : Bool) :
    (s.setFlag k b).content = Function.update s.content (.flag k) (.flag b) := by
  funext n
  cases n with
  | queue k' => rw [Function.update_of_ne (by simp)]; rfl
  | flag k' =>
    rcases eq_or_ne k' k with rfl | hne
    · rw [Function.update_self]
      exact congrArg Content.flag (Function.update_self ..)
    · rw [Function.update_of_ne fun h => hne (Name.flag.inj h)]
      exact congrArg Content.flag (Function.update_of_ne hne ..)

end Ideal

/-- The handle is a pointer for the reference, if what is named is kept at the addresses `addr`. -/
inductive Stands (addr : Name → Addr) (m : Heap) : Handle → Ref → Prop
  | executor (k : ℕ) : Stands addr m (.executor (addr (.queue k))) (.executor k)
  | flag (k : ℕ) : Stands addr m (.flag (addr (.flag k))) (.flag k)
  | task {ptr : Addr} {k : ℕ} {x : TaskId}
      (hbox : m.view ptr = some (.box, .wakerData x (addr (.queue k)))) :
      Stands addr m (.waker ⟨ptr, .task⟩) (.waker (.task k x))
  | flagWaker (k : ℕ) : Stands addr m (.waker ⟨addr (.flag k), .flag⟩) (.waker (.flag k))

/-- What has a name is at its address, or has been freed. -/
structure Placed (addr : Name → Addr) (m : Heap) (s : Ideal) : Prop where
  lt : ∀ n, s.Used n → addr n < m.next
  inj : ∀ n n', s.Used n → s.Used n' → addr n = addr n' → n = n'
  content : ∀ n, s.Used n →
    m.view (addr n) = none ∨ m.view (addr n) = some (.shared, .content (s.content n))

/-- The memory and the pointers of `w` are those of `s`. -/
structure Rel (addr : Name → Addr) (w : World) (s : Ideal) : Prop where
  owned : w.mem.Owned w.roots
  older : w.mem.Descending
  placed : Placed addr w.mem s
  handles : List.Forall₂ (Stands addr w.mem) w.handles s.handles
  forgotten : List.Forall₂ (Stands addr w.mem) w.forgotten s.forgotten
  used : ∀ r ∈ s.handles ++ s.forgotten, s.Used r.name

section Frame

variable {addr addr' : Name → Addr} {m m' : Heap} {s s' : Ideal} {w : World} {h : Handle} {r : Ref}

/-- What a handle refers to has not been freed. -/
theorem Stands.live (hst : Stands addr m h r) {R : Multiset Addr} (hown : m.Owned R)
    (hp : Placed addr m s) (hroot : h.addr ∈ R) (hused : s.Used r.name) :
    m.view (addr r.name) = some (.shared, .content (s.content r.name)) := by
  refine (hp.content _ hused).resolve_left ?_
  cases hst with
  | executor k => exact hown.view_ne_none hroot
  | flag k => exact hown.view_ne_none hroot
  | flagWaker k => exact hown.view_ne_none hroot
  | @task ptr k x hbox =>
    -- through the box
    obtain ⟨c, hc, -, hvalue⟩ := Mem.exists_cell hbox
    have hmem : addr (.queue k) ∈ refs c.value := by
      rw [hvalue]
      exact List.mem_singleton_self _
    obtain ⟨c', hc'⟩ := hown.allocated (hown.owners_pos_of_ref hc hmem)
    exact fun hnone => Option.some_ne_none c' (hc'.symm.trans (Mem.view_eq_none.mp hnone))

theorem Stands.executor_of_eq {k : ℕ} {a : Addr} (ha : addr (.queue k) = a) :
    Stands addr m (.executor a) (.executor k) :=
  ha ▸ .executor k

theorem Stands.flag_of_eq {k : ℕ} {a : Addr} (ha : addr (.flag k) = a) :
    Stands addr m (.flag a) (.flag k) :=
  ha ▸ .flag k

theorem Stands.flagWaker_of_eq {k : ℕ} {a : Addr} (ha : addr (.flag k) = a) :
    Stands addr m (.waker ⟨a, .flag⟩) (.waker (.flag k)) :=
  ha ▸ .flagWaker k

theorem Stands.exists_waker {t : Target} (hst : Stands addr m h (.waker t)) :
    ∃ w, h = .waker w := by
  cases hst with
  | task _ => exact ⟨_, rfl⟩
  | flagWaker k => exact ⟨_, rfl⟩

/-- Only the box of a waker of a task is looked at. -/
theorem Stands.of_view (hst : Stands addr m h r) (haddr : addr' r.name = addr r.name)
    (hview : ∀ v, m.view h.addr = some (.box, v) → m'.view h.addr = some (.box, v)) :
    Stands addr' m' h r := by
  cases hst with
  | executor k => exact haddr ▸ .executor k
  | flag k => exact haddr ▸ .flag k
  | flagWaker k => exact haddr ▸ .flagWaker k
  | @task ptr k x hbox =>
    have haddr : addr' (.queue k) = addr (.queue k) := haddr
    refine .task ?_
    rw [haddr]
    exact hview _ hbox

/-- The handles do not matter. -/
theorem Placed.congr (hp : Placed addr m s) (hcontent : s'.content = s.content)
    (hused : ∀ n, s'.Used n ↔ s.Used n) : Placed addr m s' := by
  refine ⟨fun n hn => hp.lt n ((hused n).mp hn), fun n n' hn hn' => ?_, fun n hn => ?_⟩
  · exact hp.inj n n' ((hused n).mp hn) ((hused n').mp hn')
  · rw [hcontent]
    exact hp.content n ((hused n).mp hn)

theorem Placed.grow (hp : Placed addr m s) (hg : m.Grown m') : Placed addr m' s where
  lt n hn := Nat.lt_of_lt_of_le (hp.lt n hn) hg.1
  inj := hp.inj
  content n hn := by
    rw [hg.2 _ (hp.lt n hn)]
    exact hp.content n hn

theorem Placed.shrink (hp : Placed addr m s) (hs : m.Shrunk m') : Placed addr m' s where
  lt n hn := by
    rw [hs.1]
    exact hp.lt n hn
  inj := hp.inj
  content n hn := by
    rcases hs.2 (addr n) with hnone | heq
    · exact .inl hnone
    · rw [heq]
      exact hp.content n hn

/-- A new name, for a cell that has been put at the next address. -/
theorem Placed.new (hp : Placed addr m s) {n : Name} {c : Content} (hn : ¬ s.Used n)
    (hview : m'.view = Function.update m.view m.next (some (.shared, .content c)))
    (hnext : m.next < m'.next) (hused : ∀ n', s'.Used n' ↔ s.Used n' ∨ n' = n)
    (hcontent : s'.content = Function.update s.content n c) :
    Placed (Function.update addr n m.next) m' s' := by
  -- an old name has its old address, which is not the new one
  have hold : ∀ n', s.Used n' → n' ≠ n ∧ Function.update addr n m.next n' = addr n' ∧
      addr n' ≠ m.next := by
    intro n' hn'
    have hne : n' ≠ n := fun heq => hn (heq ▸ hn')
    exact ⟨hne, Function.update_of_ne hne _ _, Nat.ne_of_lt (hp.lt n' hn')⟩
  have hself : Function.update addr n m.next n = m.next := Function.update_self _ _ _
  refine ⟨fun n' hn' => ?_, fun n₁ n₂ hn₁ hn₂ heq => ?_, fun n' hn' => ?_⟩
  · rcases (hused n').mp hn' with hn' | rfl
    · rw [(hold n' hn').2.1]
      exact (hp.lt n' hn').trans hnext
    · rw [hself]
      exact hnext
  · rcases (hused n₁).mp hn₁ with hn₁ | rfl <;> rcases (hused n₂).mp hn₂ with hn₂ | rfl
    · rw [(hold n₁ hn₁).2.1, (hold n₂ hn₂).2.1] at heq
      exact hp.inj n₁ n₂ hn₁ hn₂ heq
    · rw [(hold n₁ hn₁).2.1, hself] at heq
      exact absurd heq (hold n₁ hn₁).2.2
    · rw [(hold n₂ hn₂).2.1, hself] at heq
      exact absurd heq.symm (hold n₂ hn₂).2.2
    · rfl
  · rw [hview, hcontent]
    rcases (hused n').mp hn' with hn' | rfl
    · rw [(hold n' hn').2.1, Function.update_of_ne (hold n' hn').2.2,
        Function.update_of_ne (hold n' hn').1]
      exact hp.content n' hn'
    · rw [hself, Function.update_self, Function.update_self]
      exact .inr rfl

/-- The content of one name is written. -/
theorem Placed.write (hp : Placed addr m s) {n : Name} {c : Content} (hn : s.Used n)
    (hview : m'.view = Function.update m.view (addr n) (some (.shared, .content c)))
    (hnext : m'.next = m.next) (hused : ∀ n', s'.Used n' ↔ s.Used n')
    (hcontent : s'.content = Function.update s.content n c) : Placed addr m' s' := by
  refine ⟨fun n' hn' => ?_, fun n₁ n₂ hn₁ hn₂ => ?_, fun n' hn' => ?_⟩
  · rw [hnext]
    exact hp.lt n' ((hused n').mp hn')
  · exact hp.inj n₁ n₂ ((hused n₁).mp hn₁) ((hused n₂).mp hn₂)
  · rw [hview, hcontent]
    rcases eq_or_ne n' n with rfl | hne
    · rw [Function.update_self, Function.update_self]
      exact .inr rfl
    · have haddr : addr n' ≠ addr n := fun heq => hne (hp.inj n' n ((hused n').mp hn') hn heq)
      rw [Function.update_of_ne haddr, Function.update_of_ne hne]
      exact hp.content n' ((hused n').mp hn')

/-! ### The functions of the vtables -/

theorem readQueue_eq {a : Addr} {q : ReadyQueue}
    (hv : m.view a = some (.shared, .content (.queue q))) : readQueue m a = some q := by
  rw [readQueue, Mem.read_eq hv]

theorem readFlag_eq {a : Addr} {b : Bool} (hv : m.view a = some (.shared, .content (.flag b))) :
    readFlag m a = some b := by
  rw [readFlag, Mem.read_eq hv]

theorem readWakerData_eq {a queue : Addr} {x : TaskId}
    (hv : m.view a = some (.box, .wakerData x queue)) : readWakerData m a = some (x, queue) := by
  rw [readWakerData, Mem.read_eq hv]

/-- `m'` is `m` with the content `c` at `a`. -/
def Wrote (m : Heap) (a : Addr) (c : Content) (m' : Heap) : Prop :=
  m'.view = Function.update m.view a (some (.shared, .content c)) ∧ m'.next = m.next ∧
    ∀ R, m.Owned R → m'.Owned R

theorem exists_writeQueue {a : Addr} {q : ReadyQueue} (q' : ReadyQueue)
    (hv : m.view a = some (.shared, .content (.queue q))) :
    ∃ m', writeQueue m a q' = some m' ∧ Wrote m a (.queue q') m' := by
  obtain ⟨m', hm', hview, hnext, hown⟩ := Mem.exists_write (.content (.queue q')) hv
  exact ⟨m', hm', hview, hnext, fun R => hown R R rfl⟩

theorem exists_writeFlag {a : Addr} {b : Bool} (b' : Bool)
    (hv : m.view a = some (.shared, .content (.flag b))) :
    ∃ m', writeFlag m a b' = some m' ∧ Wrote m a (.flag b') m' := by
  obtain ⟨m', hm', hview, hnext, hown⟩ := Mem.exists_write (.content (.flag b')) hv
  refine ⟨m', ?_, hview, hnext, fun R => hown R R rfl⟩
  rw [writeFlag, readFlag_eq hv]
  exact hm'

theorem exists_push {a : Addr} {q : ReadyQueue} (x : TaskId)
    (hv : m.view a = some (.shared, .content (.queue q))) :
    ∃ m', push m a x = some m' ∧ Wrote m a (.queue (q.push x)) m' := by
  obtain ⟨m', hm', hwrote⟩ := exists_writeQueue (q.push x) hv
  refine ⟨m', ?_, hwrote⟩
  rw [push, readQueue_eq hv]
  exact hm'

/-- In `m'` there is a new waker for `t`. -/
structure NewWaker (addr : Name → Addr) (m : Heap) (t : Target) (w : RawWaker) (m' : Heap) :
    Prop where
  stands : Stands addr m' (.waker w) (.waker t)
  grown : m.Grown m'
  owned : ∀ R, m.Owned R → m'.Owned (w.ptr ::ₘ R)
  older : addr t.name < m.next → m.Descending → m'.Descending

/-- A new waker owns its box, and the box a new reference to the queue. -/
theorem exists_makeWaker {k : ℕ} {q : ReadyQueue} (x : TaskId)
    (hlive : m.view (addr (.queue k)) = some (.shared, .content (.queue q))) :
    ∃ m₁ w' m', m.retain (addr (.queue k)) = some m₁ ∧
      makeWaker m₁ x (addr (.queue k)) = (w', m') ∧ NewWaker addr m (.task k x) w' m' := by
  obtain ⟨m₁, hretain, hview, hnext, hown⟩ := Mem.exists_retain hlive
  have hview' := Mem.view_alloc (m := m₁) (.box (.wakerData x (addr (.queue k))))
  refine ⟨m₁, ⟨m₁.next, .task⟩, _, hretain, rfl, .task ?_, ?_, fun R hR => ?_, fun hlt hm => ?_⟩
  · exact (congrFun hview' m₁.next).trans (Function.update_self ..)
  · have hgrown := Mem.grown_alloc (m := m₁) (.box (.wakerData x (addr (.queue k))))
    rw [Mem.Grown, hnext, hview] at hgrown
    exact hgrown
  · exact Mem.Owned.alloc (hown R hR) rfl
  · rw [hview] at hview'
    refine hm.update hview' fun b hb => ?_
    rw [List.mem_singleton.mp hb, hnext]
    exact hlt

/-- A clone is a new owner and stands for the same. -/
theorem exists_clone {w : RawWaker} {t : Target} (hst : Stands addr m (.waker w) (.waker t))
    (hlive : m.view (addr t.name) = some (.shared, .content (s.content t.name))) :
    ∃ w' m', w.clone m = some (w', m') ∧ NewWaker addr m t w' m' := by
  cases hst with
  | @task ptr k x hbox =>
    obtain ⟨m₁, w', m', hretain, hmake, hnew⟩ := exists_makeWaker x hlive
    refine ⟨w', m', ?_, hnew⟩
    simp only [RawWaker.clone, wakerClone, readWakerData_eq hbox, Option.bind_eq_bind,
      Option.bind_some, hretain, ← hmake]
    rfl
  | flagWaker k =>
    obtain ⟨m', hretain, hview, hnext, hown⟩ := Mem.exists_retain hlive
    refine ⟨⟨addr (.flag k), .flag⟩, m', ?_, .flagWaker k, ⟨Nat.le_of_eq hnext.symm, ?_⟩, hown, ?_⟩
    · have hretain : m.retain (addr (.flag k)) = some m' := hretain
      have hread : readFlag m (addr (.flag k)) = some (s.flag k) := readFlag_eq hlive
      simp only [RawWaker.clone, flagClone, hread, Option.bind_eq_bind, Option.bind_some, hretain]
    · exact fun b _ => congrFun hview b
    · intro _ hm
      rw [Mem.Descending, hview]
      exact hm

/-- To wake a waker is to write what it stands for. -/
theorem exists_wakeByRef {w : RawWaker} {t : Target} (hst : Stands addr m (.waker w) (.waker t))
    (hlive : m.view (addr t.name) = some (.shared, .content (s.content t.name))) :
    ∃ m', w.wakeByRef m = some m' ∧ Wrote m (addr t.name) ((s.wake t).content t.name) m' := by
  cases hst with
  | @task ptr k x hbox =>
    have hcontent : (s.wake (.task k x)).content (.queue k) = .queue ((s.queue k).push x) :=
      congrArg Content.queue (Function.update_self ..)
    rw [Target.name, hcontent]
    obtain ⟨m', hm', hwrote⟩ := exists_push x hlive
    refine ⟨m', ?_, hwrote⟩
    simp only [RawWaker.wakeByRef, wakerWakeByRef, readWakerData_eq hbox, Option.bind_eq_bind,
      Option.bind_some]
    exact hm'
  | flagWaker k =>
    have hcontent : (s.wake (.flag k)).content (.flag k) = .flag true :=
      congrArg Content.flag (Function.update_self ..)
    rw [Target.name, hcontent]
    exact exists_writeFlag true hlive

/-- `wake` is `wake_by_ref` and a drop. -/
theorem wake_eq (m : Heap) (w : RawWaker) :
    w.wake m = (w.wakeByRef m).bind fun m => m.drop [w.ptr] := by
  cases hw : w.vtable with
  | task =>
    rw [RawWaker.wake, RawWaker.wakeByRef, hw]
    simp only [wakerWake, wakerWakeByRef, Option.bind_eq_bind, Option.bind_assoc]
  | flag =>
    rw [RawWaker.wake, RawWaker.wakeByRef, hw]
    rfl

/-- Every handle can be dropped. -/
theorem exists_dropHandle {R : Multiset Addr} (hst : Stands addr m h r)
    (hlive : m.view (addr r.name) = some (.shared, .content (s.content r.name)))
    (hown : m.Owned (h.addr ::ₘ R)) :
    ∃ m', World.dropHandle m h = some m' ∧ m'.Owned R ∧ m.Shrunk m' := by
  have hdrop : ∀ a, a = h.addr → ∃ m', m.drop [a] = some m' ∧ m'.Owned R ∧ m.Shrunk m' := by
    rintro a rfl
    exact Mem.exists_drop_singleton hown
  cases hst with
  | executor k => exact hdrop _ rfl
  | flag k => exact hdrop _ rfl
  | task hbox =>
    simp only [World.dropHandle, RawWaker.drop, wakerDrop, readWakerData_eq hbox,
      Option.bind_eq_bind, Option.bind_some]
    exact hdrop _ rfl
  | flagWaker k =>
    have hread : readFlag m (addr (.flag k)) = some (s.flag k) := readFlag_eq hlive
    simp only [World.dropHandle, RawWaker.drop, flagDrop, hread, Option.bind_eq_bind,
      Option.bind_some]
    exact hdrop _ rfl

/-! ### The operations -/

theorem mem_roots {hd : Handle} {i : ℕ} (hi : w.handles[i]? = some hd) : hd.addr ∈ w.roots := by
  refine Multiset.mem_add.mpr (.inl (Multiset.mem_coe.mpr ?_))
  exact List.mem_map_of_mem (List.mem_of_getElem? hi)

/-- The pointer of a reference, and that what it refers to is there. -/
theorem Rel.exists_handle (h : Rel addr w s) {i : ℕ} (hi : s.handles[i]? = some r) :
    ∃ hd, w.handles[i]? = some hd ∧ Stands addr w.mem hd r ∧ s.Used r.name ∧
      w.mem.view (addr r.name) = some (.shared, .content (s.content r.name)) := by
  obtain ⟨hlt, hget⟩ := List.getElem?_eq_some_iff.mp hi
  have hlt' : i < w.handles.length := h.handles.length_eq ▸ hlt
  have hst : Stands addr w.mem (w.handles.get ⟨i, hlt'⟩) r := by
    rw [← hget]
    exact h.handles.get hlt' hlt
  have hused := h.used r (List.mem_append_left _ (List.mem_of_getElem? hi))
  have hi' : w.handles[i]? = some (w.handles.get ⟨i, hlt'⟩) := List.getElem?_eq_getElem hlt'
  exact ⟨_, hi', hst, hused, hst.live h.owned h.placed (mem_roots hi') hused⟩

/-- The content of something is written. -/
theorem Rel.write (h : Rel addr w s) {n : Name} {c : Content} (hn : s.Used n)
    (hlive : w.mem.view (addr n) = some (.shared, .content (s.content n)))
    (hwrote : Wrote w.mem (addr n) c m') (hcontent : s'.content = Function.update s.content n c)
    (hused : ∀ n', s'.Used n' ↔ s.Used n') (hhandles : s'.handles = s.handles)
    (hforgotten : s'.forgotten = s.forgotten) : Rel addr { w with mem := m' } s' := by
  obtain ⟨hview, hnext, hown⟩ := hwrote
  -- a box is not what is written
  have hbox : ∀ hd r, Stands addr w.mem hd r → Stands addr m' hd r := by
    intro hd r hst
    refine hst.of_view rfl fun v hv => ?_
    have hne : hd.addr ≠ addr n := by
      intro heq
      rw [heq, hlive] at hv
      cases hv
    rw [hview, Function.update_of_ne hne]
    exact hv
  refine ⟨hown _ h.owned, h.older.update hview (fun _ hb => by cases hb),
    h.placed.write hn hview hnext hused hcontent, ?_, ?_, ?_⟩
  · rw [hhandles]
    exact h.handles.imp hbox
  · rw [hforgotten]
    exact h.forgotten.imp hbox
  · rw [hhandles, hforgotten]
    exact fun r hr => (hused _).mpr (h.used r hr)

theorem Rel.wake (h : Rel addr w s) {t : Target} (hn : s.Used t.name)
    (hlive : w.mem.view (addr t.name) = some (.shared, .content (s.content t.name)))
    (hwrote : Wrote w.mem (addr t.name) ((s.wake t).content t.name) m') :
    Rel addr { w with mem := m' } (s.wake t) := by
  cases t with
  | task k x =>
    have hcontent : (s.wake (.task k x)).content = Function.update s.content (.queue k)
        ((s.wake (.task k x)).content (.queue k)) := by
      rw [Ideal.wake, Ideal.content_setQueue, Function.update_self]
    exact h.write hn hlive hwrote hcontent (fun _ => Iff.rfl) rfl rfl
  | flag k =>
    have hcontent : (s.wake (.flag k)).content = Function.update s.content (.flag k)
        ((s.wake (.flag k)).content (.flag k)) := by
      rw [Ideal.wake, Ideal.content_setFlag, Function.update_self]
    exact h.write hn hlive hwrote hcontent (fun _ => Iff.rfl) rfl rfl

/-- There are new handles. -/
theorem Rel.grow (h : Rel addr w s) {hs : List Handle} (rs : List Ref) (hg : w.mem.Grown m')
    (haddr : ∀ n, s.Used n → addr' n = addr n) (hplaced : Placed addr' m' s')
    (hused : ∀ n, s.Used n → s'.Used n) (hhandles : s'.handles = s.handles ++ rs)
    (hforgotten : s'.forgotten = s.forgotten) (hnew : List.Forall₂ (Stands addr' m') hs rs)
    (hnewused : ∀ r ∈ rs, s'.Used r.name)
    (holder : m'.Descending)
    (hown : m'.Owned (((hs.map Handle.addr : List Addr) : Multiset Addr) + w.roots)) :
    Rel addr' { w with mem := m', handles := w.handles ++ hs } s' := by
  -- no old cell has changed
  have hold : ∀ hs rs, (∀ r ∈ rs, s.Used r.name) → List.Forall₂ (Stands addr w.mem) hs rs →
      List.Forall₂ (Stands addr' m') hs rs := by
    intro hs rs hall hst
    induction hst with
    | nil => exact .nil
    | @cons hd r hs rs hst _ ih =>
      rw [List.forall_mem_cons] at hall
      refine .cons (hst.of_view (haddr _ hall.1) fun v hv => ?_) (ih hall.2)
      obtain ⟨c, hc, -⟩ := Mem.exists_cell hv
      rw [hg.2 _ (h.owned.lt_next hc)]
      exact hv
  have hall := List.forall_mem_append.mp h.used
  refine ⟨?_, holder, hplaced, ?_, ?_, ?_⟩
  · refine Eq.mp (congrArg _ ?_) hown
    rw [World.roots, World.roots, List.map_append, ← Multiset.coe_add, add_comm, add_assoc,
      add_assoc, add_comm ((List.map Handle.addr w.forgotten : List Addr) : Multiset Addr)]
  · rw [hhandles]
    exact List.rel_append (hold _ _ hall.1 h.handles) hnew
  · rw [hforgotten]
    exact hold _ _ hall.2 h.forgotten
  · rw [hhandles, hforgotten]
    refine List.forall_mem_append.mpr ⟨List.forall_mem_append.mpr ⟨fun r hr => ?_, hnewused⟩,
      fun r hr => ?_⟩
    · exact hused _ (hall.1 r hr)
    · exact hused _ (hall.2 r hr)

theorem forall₂_eraseIdx {α β : Type*} {R : α → β → Prop} {l : List α} {l' : List β}
    (h : List.Forall₂ R l l') (i : ℕ) : List.Forall₂ R (l.eraseIdx i) (l'.eraseIdx i) := by
  induction h generalizing i with
  | nil => exact .nil
  | cons hR h ih =>
    cases i with
    | zero => exact h
    | succ i => exact .cons hR (ih i)

/-- The reference that a handle owns is one of the roots. -/
theorem roots_eq_cons {hd : Handle} {i : ℕ} (hi : w.handles[i]? = some hd) :
    w.roots = hd.addr ::ₘ { w with handles := w.handles.eraseIdx i }.roots := by
  obtain ⟨hlt, hget⟩ := List.getElem?_eq_some_iff.mp hi
  have hperm := (List.getElem_cons_eraseIdx_perm hlt).map Handle.addr
  rw [hget, List.map_cons] at hperm
  rw [World.roots, World.roots, ← Multiset.coe_eq_coe.mpr hperm, ← Multiset.cons_coe,
    Multiset.cons_add]

/-- A handle is gone, with what only it has kept. -/
theorem Rel.shrink (h : Rel addr w s) {i : ℕ} (hs : w.mem.Shrunk m')
    (hown : m'.Owned { w with handles := w.handles.eraseIdx i }.roots) :
    Rel addr { w with mem := m', handles := w.handles.eraseIdx i }
      { s with handles := s.handles.eraseIdx i } := by
  -- a pointer that is left is a root, so that its box is there
  have hleft : ∀ hs rs, (∀ hd ∈ hs, hd.addr ∈ { w with handles := w.handles.eraseIdx i }.roots) →
      List.Forall₂ (Stands addr w.mem) hs rs → List.Forall₂ (Stands addr m') hs rs := by
    intro hs' rs hall hst
    induction hst with
    | nil => exact .nil
    | cons hst _ ih =>
      rw [List.forall_mem_cons] at hall
      refine .cons (hst.of_view rfl fun v hv => ?_) (ih hall.2)
      rw [hs.view_eq (hown.view_ne_none hall.1)]
      exact hv
  refine ⟨hown, h.older.shrunk hs, (h.placed.shrink hs).congr rfl fun _ => Iff.rfl, ?_, ?_,
    fun r hr => h.used r ?_⟩
  · refine hleft _ _ (fun hd hhd => ?_) (forall₂_eraseIdx h.handles i)
    exact Multiset.mem_add.mpr (.inl (Multiset.mem_coe.mpr (List.mem_map_of_mem hhd)))
  · refine hleft _ _ (fun hd hhd => ?_) h.forgotten
    exact Multiset.mem_add.mpr (.inr (Multiset.mem_coe.mpr (List.mem_map_of_mem hhd)))
  · rcases List.mem_append.mp hr with hr | hr
    · exact List.mem_append_left _ (List.mem_of_mem_eraseIdx hr)
    · exact List.mem_append_right _ hr

/-- There is a new waker. -/
theorem Rel.addWaker (h : Rel addr w s) {waker : RawWaker} {t : Target} (hused : s.Used t.name)
    (hnew : NewWaker addr w.mem t waker m') :
    Rel addr { w with mem := m', handles := w.handles ++ [.waker waker] }
      { s with handles := s.handles ++ [.waker t] } := by
  refine h.grow [.waker t] hnew.grown (fun _ _ => rfl)
    ((h.placed.grow hnew.grown).congr rfl fun _ => Iff.rfl) (fun _ => id) rfl rfl
    (.cons hnew.stands .nil) (fun r hr => ?_) (hnew.older (h.placed.lt _ hused) h.older)
    (hnew.owned _ h.owned)
  rw [List.mem_singleton.mp hr]
  exact hused

/-- Something new is shared, and there are handles to it. -/
theorem Rel.fresh (h : Rel addr w s) {n : Name} {c : Content} {hs : List Handle} (rs : List Ref)
    (hn : ¬ s.Used n)
    (hview : m'.view = Function.update w.mem.view w.mem.next (some (.shared, .content c)))
    (hnext : w.mem.next < m'.next) (hused : ∀ n', s'.Used n' ↔ s.Used n' ∨ n' = n)
    (hcontent : s'.content = Function.update s.content n c)
    (hhandles : s'.handles = s.handles ++ rs)
    (hforgotten : s'.forgotten = s.forgotten) (hname : ∀ r ∈ rs, r.name = n)
    (hnew : List.Forall₂ (Stands (Function.update addr n w.mem.next) m') hs rs)
    (hown : m'.Owned (((hs.map Handle.addr : List Addr) : Multiset Addr) + w.roots)) :
    Rel (Function.update addr n w.mem.next)
      { w with mem := m', handles := w.handles ++ hs } s' := by
  have hgrown : w.mem.Grown m' := by
    refine ⟨Nat.le_of_lt hnext, fun b hb => ?_⟩
    rw [hview, Function.update_of_ne (Nat.ne_of_lt hb)]
  refine h.grow rs hgrown (fun n' hn' => ?_) (h.placed.new hn hview hnext hused hcontent)
    (fun n' hn' => (hused n').mpr (.inl hn')) hhandles hforgotten hnew (fun r hr => ?_)
    (h.older.update hview fun _ hb => by cases hb) hown
  · exact Function.update_of_ne (ne_of_mem_of_not_mem (s := {n | s.Used n}) hn' hn) _ _
  · exact (hused _).mpr (.inr (hname r hr))

/-- The operation is carried out with the result `out`, and then the pointers are those of `s'`. -/
def Follows (w : World) (op : Op) (out : Out) (s' : Ideal) : Prop :=
  ∃ w' addr', w.step op = some (out, w') ∧ Rel addr' w' s'

section Ops

variable {i k : ℕ} {t : Target}

theorem Rel.newExecutor (h : Rel addr w s) :
    Follows w .newExecutor .unit { s.setQueue s.queues .new with
      queues := s.queues + 1, handles := s.handles ++ [.executor s.queues] } := by
  have hself : Function.update addr (.queue s.queues) w.mem.next (.queue s.queues) = w.mem.next :=
    Function.update_self _ _ _
  refine ⟨_, Function.update addr (.queue s.queues) w.mem.next, rfl, ?_⟩
  refine h.fresh [.executor s.queues] (Nat.lt_irrefl _) (Mem.view_alloc _)
    (Nat.lt_succ_self _) (fun n => ?_) (s.content_setQueue s.queues .new) rfl rfl
    (fun r hr => ?_) (.cons (.executor_of_eq hself) .nil) (h.owned.alloc_of_refs_nil rfl rfl)
  · cases n with
    | queue k =>
      exact Nat.lt_succ_iff_lt_or_eq.trans (or_congr_right ⟨congrArg Name.queue, Name.queue.inj⟩)
    | flag k => exact ⟨.inl, fun h => h.resolve_right fun heq => by cases heq⟩
  · rw [List.mem_singleton.mp hr]
    rfl

theorem Rel.blockOn (h : Rel addr w s) :
    Follows w .blockOn .unit { s.setFlag s.flags true with
      flags := s.flags + 1, handles := s.handles ++ [.flag s.flags, .waker (.flag s.flags)] } := by
  -- the flag has two owners: the variable and the waker
  have hview := Mem.view_alloc (m := w.mem) (.shared 1 (.content (.flag true)))
  obtain ⟨m', hretain, hview', hnext, hown⟩ := Mem.exists_retain
    (m := (w.mem.alloc (.shared 1 (.content (.flag true)))).2) (a := w.mem.next)
    (by rw [hview, Function.update_self]; rfl)
  have hself : Function.update addr (.flag s.flags) w.mem.next (.flag s.flags) = w.mem.next :=
    Function.update_self _ _ _
  refine ⟨{ w with mem := m', handles := w.handles ++
    [.flag w.mem.next, .waker (flagWaker w.mem.next)] },
    Function.update addr (.flag s.flags) w.mem.next, ?_, ?_⟩
  · simp only [World.step, Mem.alloc, Option.bind_eq_bind] at hretain ⊢
    rw [hretain]
    rfl
  · refine h.fresh [.flag s.flags, .waker (.flag s.flags)] (Nat.lt_irrefl _)
      (hview'.trans hview) (hnext ▸ Nat.lt_succ_self _) (fun n => ?_)
      (s.content_setFlag s.flags true) rfl rfl (fun r hr => ?_)
      (.cons (.flag_of_eq hself) (.cons (.flagWaker_of_eq hself) .nil))
      (hown _ (h.owned.alloc_of_refs_nil rfl rfl))
    · cases n with
      | queue k => exact ⟨.inl, fun h => h.resolve_right fun heq => by cases heq⟩
      | flag k =>
        exact Nat.lt_succ_iff_lt_or_eq.trans (or_congr_right ⟨congrArg Name.flag, Name.flag.inj⟩)
    · simp only [List.mem_cons, List.not_mem_nil, or_false] at hr
      rcases hr with rfl | rfl <;> rfl

theorem Rel.spawn (h : Rel addr w s) (hi : s.handles[i]? = some (.executor k)) (x : TaskId) :
    Follows w (.spawn i x) .unit { s.setQueue k ((s.queue k).push x) with
      handles := s.handles ++ [.waker (.task k x)] } := by
  obtain ⟨hd, hi', hst, hused, hlive⟩ := h.exists_handle hi
  cases hst
  have hused : s.Used (.queue k) := hused
  obtain ⟨m₁, waker, m₂, hretain, hmake, hnew⟩ := exists_makeWaker x hlive
  have hadd := h.addWaker (t := .task k x) hused hnew
  have hlive₂ : m₂.view (addr (.queue k)) = some (.shared, .content (.queue (s.queue k))) := by
    rw [hnew.grown.2 _ (h.placed.lt _ hused)]
    exact hlive
  obtain ⟨m₃, hpush, hwrote⟩ := exists_push x hlive₂
  refine ⟨_, addr, ?_, hadd.write (n := .queue k) hused hlive₂ hwrote
    (Ideal.content_setQueue _ k _) (fun _ => Iff.rfl) rfl rfl⟩
  simp only [World.step, hi', Option.bind_eq_bind, hretain, Option.bind_some, hmake, hpush]

theorem Rel.drain (h : Rel addr w s) (hi : s.handles[i]? = some (.executor k)) :
    Follows w (.drain i) (.ids (s.queue k).drain.1) (s.setQueue k (s.queue k).drain.2) := by
  obtain ⟨hd, hi', hst, hused, hlive⟩ := h.exists_handle hi
  cases hst
  obtain ⟨m', hm', hwrote⟩ := exists_writeQueue (s.queue k).drain.2 hlive
  refine ⟨{ w with mem := m' }, addr, ?_, h.write hused hlive hwrote
    (s.content_setQueue k _) (fun _ => Iff.rfl) rfl rfl⟩
  have hread : readQueue w.mem (addr (.queue k)) = some (s.queue k) := readQueue_eq hlive
  have hm' : writeQueue w.mem (addr (.queue k)) (s.queue k).drain.2 = some m' := hm'
  simp only [World.step, hi', hread, Option.bind_eq_bind, Option.bind_some, hm']

theorem Rel.isEmpty (h : Rel addr w s) (hi : s.handles[i]? = some (.executor k)) :
    Follows w (.isEmpty i) (.bool (s.queue k).isEmpty) s := by
  obtain ⟨hd, hi', hst, hused, hlive⟩ := h.exists_handle hi
  cases hst
  refine ⟨w, addr, ?_, h⟩
  have hread : readQueue w.mem (addr (.queue k)) = some (s.queue k) := readQueue_eq hlive
  simp only [World.step, hi', hread, Option.bind_eq_bind, Option.bind_some]

theorem Rel.getFlag (h : Rel addr w s) (hi : s.handles[i]? = some (.flag k)) :
    Follows w (.getFlag i) (.bool (s.flag k)) s := by
  obtain ⟨hd, hi', hst, hused, hlive⟩ := h.exists_handle hi
  cases hst
  refine ⟨w, addr, ?_, h⟩
  have hread : readFlag w.mem (addr (.flag k)) = some (s.flag k) := readFlag_eq hlive
  simp only [World.step, hi', hread, Option.bind_eq_bind, Option.bind_some]

theorem Rel.clearFlag (h : Rel addr w s) (hi : s.handles[i]? = some (.flag k)) :
    Follows w (.clearFlag i) .unit (s.setFlag k false) := by
  obtain ⟨hd, hi', hst, hused, hlive⟩ := h.exists_handle hi
  cases hst
  obtain ⟨m', hm', hwrote⟩ := exists_writeFlag false hlive
  refine ⟨{ w with mem := m' }, addr, ?_, h.write hused hlive hwrote
    (s.content_setFlag k _) (fun _ => Iff.rfl) rfl rfl⟩
  have hm' : writeFlag w.mem (addr (.flag k)) false = some m' := hm'
  simp only [World.step, hi', Option.bind_eq_bind, Option.bind_some, hm']

theorem Rel.clone (h : Rel addr w s) (hi : s.handles[i]? = some (.waker t)) :
    Follows w (.clone i) .unit { s with handles := s.handles ++ [.waker t] } := by
  obtain ⟨hd, hi', hst, hused, hlive⟩ := h.exists_handle hi
  obtain ⟨waker, rfl⟩ := hst.exists_waker
  obtain ⟨waker', m', hclone, hnew⟩ := exists_clone hst hlive
  refine ⟨_, addr, ?_, h.addWaker hused hnew⟩
  simp only [World.step, hi', Option.bind_eq_bind, hclone, Option.bind_some]

theorem Rel.wakeByRef (h : Rel addr w s) (hi : s.handles[i]? = some (.waker t)) :
    Follows w (.wakeByRef i) .unit (s.wake t) := by
  obtain ⟨hd, hi', hst, hused, hlive⟩ := h.exists_handle hi
  obtain ⟨waker, rfl⟩ := hst.exists_waker
  obtain ⟨m', hwake, hwrote⟩ := exists_wakeByRef hst hlive
  refine ⟨_, addr, ?_, h.wake hused hlive hwrote⟩
  simp only [World.step, hi', Option.bind_eq_bind, hwake, Option.bind_some]

theorem Rel.wakeByValue (h : Rel addr w s) (hi : s.handles[i]? = some (.waker t)) :
    Follows w (.wake i) .unit { s.wake t with handles := (s.wake t).handles.eraseIdx i } := by
  obtain ⟨hd, hi', hst, hused, hlive⟩ := h.exists_handle hi
  obtain ⟨waker, rfl⟩ := hst.exists_waker
  obtain ⟨m₁, hwake, hwrote⟩ := exists_wakeByRef hst hlive
  have hrel := h.wake hused hlive hwrote
  have hown := hrel.owned
  rw [roots_eq_cons (w := { w with mem := m₁ }) hi'] at hown
  obtain ⟨m₂, hdrop, hown₂, hshrunk⟩ := Mem.exists_drop_singleton hown
  refine ⟨_, addr, ?_, hrel.shrink hshrunk hown₂⟩
  have hdrop : m₁.drop [waker.ptr] = some m₂ := hdrop
  simp only [World.step, hi', wake_eq, hwake, Option.bind_eq_bind, Option.bind_some, hdrop]

theorem Rel.drop (h : Rel addr w s) (hi : s.handles[i]? = some r) :
    Follows w (.drop i) .unit { s with handles := s.handles.eraseIdx i } := by
  obtain ⟨hd, hi', hst, hused, hlive⟩ := h.exists_handle hi
  have hown := h.owned
  rw [roots_eq_cons hi'] at hown
  obtain ⟨m', hm', hown', hshrunk⟩ := exists_dropHandle hst hlive hown
  refine ⟨{ w with mem := m', handles := w.handles.eraseIdx i }, addr, ?_,
    h.shrink hshrunk hown'⟩
  simp only [World.step, hi', Option.bind_eq_bind, Option.bind_some, hm']

/-- A handle is forgotten: it is owned as before. -/
theorem Rel.forget (h : Rel addr w s) (hi : s.handles[i]? = some r) :
    Follows w (.forget i) .unit
      { s with handles := s.handles.eraseIdx i, forgotten := s.forgotten ++ [r] } := by
  obtain ⟨hd, hi', hst, -, -⟩ := h.exists_handle hi
  refine ⟨{ w with handles := w.handles.eraseIdx i, forgotten := w.forgotten ++ [hd] }, addr, ?_,
    ?_, h.older, h.placed.congr rfl fun _ => Iff.rfl, forall₂_eraseIdx h.handles i,
    List.rel_append h.forgotten (.cons hst .nil), fun r' hr' => h.used r' ?_⟩
  · simp only [World.step, hi']
  · have hroots := h.owned
    rw [roots_eq_cons hi'] at hroots
    refine Eq.mp (congrArg _ ?_) hroots
    rw [World.roots, World.roots, List.map_append, ← Multiset.coe_add, ← add_assoc,
      List.map_singleton, Multiset.coe_singleton, add_comm _ ({hd.addr} : Multiset Addr),
      Multiset.singleton_add]
  · simp only [List.mem_append, List.mem_singleton] at hr' ⊢
    rcases hr' with hr' | hr' | rfl
    · exact .inl (List.mem_of_mem_eraseIdx hr')
    · exact .inr hr'
    · exact .inl (List.mem_of_getElem? hi)

end Ops

/-- **Every operation is carried out**, with the same result. -/
theorem exists_step {op : Op} {out : Out} (h : Rel addr w s) (hs : s.step op = some (out, s')) :
    Follows w op out s' := by
  cases op with
  | newExecutor =>
    cases hs
    exact h.newExecutor
  | blockOn =>
    cases hs
    exact h.blockOn
  | spawn i x =>
    rw [Ideal.step] at hs
    split at hs <;> cases hs
    next hi => exact h.spawn hi x
  | drain i =>
    rw [Ideal.step] at hs
    split at hs <;> cases hs
    next hi => exact h.drain hi
  | isEmpty i =>
    rw [Ideal.step] at hs
    split at hs <;> cases hs
    next hi => exact h.isEmpty hi
  | getFlag i =>
    rw [Ideal.step] at hs
    split at hs <;> cases hs
    next hi => exact h.getFlag hi
  | clearFlag i =>
    rw [Ideal.step] at hs
    split at hs <;> cases hs
    next hi => exact h.clearFlag hi
  | clone i =>
    rw [Ideal.step] at hs
    split at hs <;> cases hs
    next hi => exact h.clone hi
  | wake i =>
    rw [Ideal.step] at hs
    split at hs <;> cases hs
    next hi => exact h.wakeByValue hi
  | wakeByRef i =>
    rw [Ideal.step] at hs
    split at hs <;> cases hs
    next hi => exact h.wakeByRef hi
  | drop i =>
    rw [Ideal.step] at hs
    split at hs <;> cases hs
    next hi => exact h.drop hi
  | forget i =>
    rw [Ideal.step] at hs
    split at hs <;> cases hs
    next hi => exact h.forget hi

/-- The two lists of handles have the same places. -/
theorem Rel.handle_cases (h : Rel addr w s) (i : ℕ) :
    w.handles[i]? = none ∧ s.handles[i]? = none ∨
      ∃ hd r, w.handles[i]? = some hd ∧ s.handles[i]? = some r ∧ Stands addr w.mem hd r := by
  cases hi : s.handles[i]? with
  | none =>
    rw [List.getElem?_eq_none_iff, ← h.handles.length_eq, ← List.getElem?_eq_none_iff] at hi
    exact .inl ⟨hi, rfl⟩
  | some r =>
    obtain ⟨hd, hi', hst, -⟩ := h.exists_handle hi
    exact .inr ⟨hd, r, hi', rfl, hst⟩

/-- An operation that there is no handle for is not carried out. -/
theorem step_eq_none {op : Op} (h : Rel addr w s) (hs : s.step op = none) : w.step op = none := by
  cases op with
  | newExecutor => cases hs
  | blockOn => cases hs
  | spawn i _ | drain i | isEmpty i | getFlag i | clearFlag i | clone i | wake i | wakeByRef i
  | drop i | forget i =>
    rcases h.handle_cases i with ⟨hi', -⟩ | ⟨hd, r, hi', hi, hst⟩
    · rw [World.step, hi']
    · cases hst <;> first | (rw [World.step, hi']; done) | (rw [Ideal.step, hi] at hs; cases hs)

end Frame

theorem rel_new : Rel (fun _ => 0) World.new Ideal.new where
  owned := Mem.owned_empty
  older := fun _ _ _ hview => by cases hview
  placed := by
    refine ⟨fun n hn => ?_, fun n _ hn => ?_, fun n hn => ?_⟩ <;>
      cases n <;> exact absurd hn (Nat.not_lt_zero _)
  handles := .nil
  forgotten := .nil
  used := fun r hr => by cases hr

/-- The pointers follow the ideal. -/
theorem exists_run {h : List (Op × Out)} {s : Ideal} (hs : Run (ofFn Ideal.step) Ideal.new h s) :
    ∃ w, Run (ofFn World.step) World.new h w ∧ ∃ addr, Rel addr w s := by
  refine hs.simulate (R := fun s w => ∃ addr, Rel addr w s) ⟨_, rel_new⟩ ?_
  rintro s w op out s' ⟨addr, hrel⟩ hstep
  obtain ⟨w', addr', hstep', hrel'⟩ := exists_step hrel hstep
  exact ⟨w', hstep', addr', hrel'⟩

/-- The ideal explains what the pointers do. -/
theorem exists_ideal {h : List (Op × Out)} {w : World}
    (hw : Run (ofFn World.step) World.new h w) :
    ∃ s, Run (ofFn Ideal.step) Ideal.new h s ∧ ∃ addr, Rel addr w s := by
  refine hw.simulate (R := fun w s => ∃ addr, Rel addr w s) ⟨_, rel_new⟩ ?_
  rintro w s op out w' ⟨addr, hrel⟩ hstep
  have hstep : w.step op = some (out, w') := hstep
  cases hs : s.step op with
  | none =>
    rw [step_eq_none hrel hs] at hstep
    cases hstep
  | some next =>
    obtain ⟨out', s'⟩ := next
    obtain ⟨w'', addr', hstep', hrel'⟩ := exists_step hrel hs
    rw [hstep] at hstep'
    cases hstep'
    exact ⟨s', hs, addr', hrel'⟩

/-- **The wakers are safe on one thread, and do what they are for.** The sequences of operations and
results that safe code on the thread of the runtime can see are the same with the pointers and
without: with the handles that it has it never makes the memory be misused, and every result is the
right one. -/
theorem raw_wakers_refine (h : List (Op × Out)) :
    (∃ s, Run (ofFn Ideal.step) Ideal.new h s) ↔ ∃ w, Run (ofFn World.step) World.new h w := by
  constructor
  · rintro ⟨s, hs⟩
    obtain ⟨w, hw, -⟩ := exists_run hs
    exact ⟨w, hw⟩
  · rintro ⟨w, hw⟩
    obtain ⟨s, hs, -⟩ := exists_ideal hw
    exact ⟨s, hs⟩

/-! ### What is allocated -/

/-- A handle is a reference to `a`, or to a box with a reference to `a`. -/
def World.InUse (w : World) (a : Addr) : Prop :=
  ∃ hd ∈ w.handles ++ w.forgotten,
    hd.addr = a ∨ ∃ x, w.mem.view hd.addr = some (.box, .wakerData x a)

theorem mem_roots_iff {w : World} {a : Addr} :
    a ∈ w.roots ↔ ∃ hd ∈ w.handles ++ w.forgotten, hd.addr = a := by
  rw [World.roots, Multiset.coe_add, Multiset.mem_coe, ← List.map_append, List.mem_map]

theorem exists_of_forall₂ {α β : Type*} {R : α → β → Prop} {l : List α} {l' : List β}
    (h : List.Forall₂ R l l') {a : α} (ha : a ∈ l) : ∃ b ∈ l', R a b := by
  induction h with
  | nil => cases ha
  | @cons a' b' l l' hR _ ih =>
    rcases List.mem_cons.mp ha with rfl | ha
    · exact ⟨b', List.mem_cons_self, hR⟩
    · obtain ⟨b, hb, hab⟩ := ih ha
      exact ⟨b, List.mem_cons_of_mem _ hb, hab⟩

/-- A reference in memory is one of a waker's box to a queue. -/
theorem Rel.pointsTo {addr : Name → Addr} {w : World} {s : Ideal} (h : Rel addr w s) {hd : Handle}
    (hhd : hd ∈ w.handles ++ w.forgotten) {b : Addr} (hb : w.mem.PointsTo hd.addr b) :
    (∃ x, w.mem.view hd.addr = some (.box, .wakerData x b)) ∧ ∀ c, ¬ w.mem.PointsTo b c := by
  obtain ⟨r, hr, hst⟩ := exists_of_forall₂ (List.rel_append h.handles h.forgotten) hhd
  have hlive := hst.live h.owned h.placed (mem_roots_iff.mpr ⟨hd, hhd, rfl⟩) (h.used r hr)
  -- a content holds no references
  have hcontent : ∀ a v, w.mem.view a = some (.shared, .content v) → ∀ c, ¬ w.mem.PointsTo a c := by
    intro a v hview c hac
    obtain ⟨k, v', hview', hc⟩ := hac.exists_view
    rw [hview] at hview'
    cases hview'
    cases hc
  cases hst with
  | executor k => exact absurd hb (hcontent _ _ hlive b)
  | flag k => exact absurd hb (hcontent _ _ hlive b)
  | flagWaker k => exact absurd hb (hcontent _ _ hlive b)
  | @task ptr k x hbox =>
    obtain ⟨k', v, hview, hbv⟩ := hb.exists_view
    rw [show (Handle.waker ⟨ptr, .task⟩).addr = ptr from rfl, hbox] at hview
    cases hview
    rw [List.mem_singleton.mp hbv]
    exact ⟨⟨x, hbox⟩, hcontent _ _ hlive⟩

theorem Rel.allocated_iff {addr : Name → Addr} {w : World} {s : Ideal} (h : Rel addr w s)
    (a : Addr) : w.mem.cells a ≠ none ↔ w.InUse a := by
  constructor
  · intro ha
    obtain ⟨c, hc⟩ := Option.ne_none_iff_exists'.mp ha
    obtain ⟨r, hr, hpath⟩ := h.owned.exists_root id (fun _ _ => h.older.of_pointsTo) hc
    obtain ⟨hd, hhd, rfl⟩ := mem_roots_iff.mp hr
    refine ⟨hd, hhd, ?_⟩
    rcases hpath.cases_head with heq | ⟨b, hb, hpath⟩
    · exact .inl heq
    · obtain ⟨hbox, hend⟩ := h.pointsTo hhd hb
      rcases hpath.cases_head with rfl | ⟨c, hc, -⟩
      · exact .inr hbox
      · exact absurd hc (hend c)
  · rintro ⟨hd, hhd, rfl | ⟨x, hview⟩⟩
    · have := h.owned.view_ne_none (mem_roots_iff.mpr ⟨hd, hhd, rfl⟩)
      exact fun hnone => this (Mem.view_eq_none.mpr hnone)
    · obtain ⟨c, hc, -, hvalue⟩ := Mem.exists_cell hview
      obtain ⟨c', hc'⟩ := h.owned.allocated (h.owned.owners_pos_of_ref (a := a) hc (by
        rw [hvalue]
        exact List.mem_singleton_self a))
      rw [hc']
      exact Option.some_ne_none c'

/-- **Nothing leaks, and nothing is freed too early**, on one thread. The cells that are
allocated are those that a handle refers to, directly or through the box of a waker. If there are no
handles left, and none has been forgotten, the memory is empty. -/
theorem raw_wakers_free_all {h : List (Op × Out)} {w : World}
    (hw : Run (ofFn World.step) World.new h w) :
    (∀ a, w.mem.cells a ≠ none ↔ w.InUse a) ∧
      (w.handles = [] → w.forgotten = [] → ∀ a, w.mem.cells a = none) := by
  obtain ⟨s, -, addr, hrel⟩ := exists_ideal hw
  refine ⟨hrel.allocated_iff, fun hhandles hforgotten a => ?_⟩
  by_contra hne
  obtain ⟨hd, hhd, -⟩ := (hrel.allocated_iff a).mp hne
  rw [hhandles, hforgotten] at hhd
  cases hhd

/-- A waker of a task that outlives its executor: it is woken after the executor is gone, and then
nothing is left. -/
def outlives : List Op := [.newExecutor, .spawn 0 7, .clone 1, .drain 0, .drop 0, .drop 0, .wake 0]

theorem raw_wakers_free_all_outlives :
    ∃ h w, Run (ofFn World.step) World.new h w ∧ h.map Prod.fst = outlives ∧
      ∀ a, w.mem.cells a = none := by
  obtain ⟨h, w, hw, hops, hhandles, hforgotten⟩ := exists_run_of_exec (f := World.step)
    (s := World.new) outlives
    (fun e => e.1.map Prod.fst = outlives ∧ e.2.handles = [] ∧ e.2.forgotten = []) (by decide)
  exact ⟨h, w, hw, hops, (raw_wakers_free_all hw).2 hhandles hforgotten⟩

end MiniAsync.SingleThread.Raw
