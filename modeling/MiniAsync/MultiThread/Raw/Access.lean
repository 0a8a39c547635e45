/-
  What one access of a call does to the memory of the raw wakers.

  The memory is typed: every reference goes to a value of the right sort, and the tasks
  in a map have wakers for this map (`Typed`). A `Change` is what an access may do.
  Values keep their sort, a waker's data and a task stay as they are, new references
  are right, and what a cell refers to is not freed. Whatever is known of the memory is
  carried over a change by one lemma each, so that the calls that are under way do not
  disturb one another (`Call.Ok.change`). All accesses but the drop of a reference free
  nothing (`Keeps`), and these can be put together (`Keeps.trans`).

  There is one lemma for each access and one for each call. `Call.exists_step` is the
  result: the next access of a call succeeds and is a change.
-/
import MiniAsync.MultiThread.Raw.Basic

namespace MiniAsync.MultiThread.Raw

open Memory

/-! ### Typed memory -/

/-- At `a` there is a value of the sort `τ`. -/
def Is (m : Heap) (a : Addr) (τ : Tag) : Prop := ∃ v, m.view a = some (τ.kind, v) ∧ v.tag = τ

/-- The task at `t` has a state, and a waker with this state that refers to the `SharedState` at
`a`. -/
def Linked (m : Heap) (a t : Addr) : Prop :=
  ∃ id st wk, m.view t = some (.shared, .task id st wk) ∧ Is m st .state ∧
    m.view wk = some (.box, .wakerData id st a)

/-- The reference `p` of the value at `a` goes to a value of its sort, and a task that is in a map
has a waker for this map. -/
def Fits (m : Heap) (a : Addr) (p : Addr × Tag) : Prop :=
  Is m p.1 p.2 ∧ (p.2 = .task → Linked m a p.1)

def Typed (m : Heap) : Prop :=
  ∀ a k v, m.view a = some (k, v) → k = v.tag.kind ∧ ∀ p ∈ v.links, Fits m a p

/-- What may become of a value. The map of a `SharedState` changes only if `S` holds. -/
inductive Becomes (S : Prop) : Obj → Obj → Prop
  | refl (v : Obj) : Becomes S v v
  | state (st st' : Status) : Becomes S (.state st) (.state st')
  | timer (wk wk' : Option Addr) : Becomes S (.timer wk) (.timer wk')
  | reactor (wakers wakers' : List (Slot × Addr)) : Becomes S (.reactor wakers) (.reactor wakers')
  | shared {s s' : SharedState} (hmap : s'.tasks = s.tasks ∨ S) : Becomes S (.shared s) (.shared s')

/-- What one access may do to the memory; the maps at the addresses of `S` may change. -/
structure Change (S : Addr → Prop) (m m' : Heap) : Prop where
  next : m.next ≤ m'.next
  /-- What is at an old address was there before. -/
  back : ∀ b < m.next, ∀ k v', m'.view b = some (k, v') →
    ∃ v, m.view b = some (k, v) ∧ Becomes (S b) v v'
  /-- What a value refers to is right, with what has been known before or is new. -/
  fits : ∀ b k v', m'.view b = some (k, v') →
    k = v'.tag.kind ∧ ∀ p ∈ v'.links, Fits m b p ∨ Fits m' b p
  /-- What a cell refers to is not freed. -/
  keeps : ∀ b c, m.PointsTo b c → m'.view c ≠ none

/-- A change that frees nothing. -/
structure Keeps (S : Addr → Prop) (m m' : Heap) : Prop extends Change S m m' where
  noFree : ∀ b, m.view b ≠ none → m'.view b ≠ none

/-- The memory is typed, and `R` are the references that are held outside. -/
structure Sound (m : Heap) (R : Multiset Addr) : Prop where
  owned : m.Owned R
  typed : Typed m

section Memory

variable {m m' m'' : Heap} {S S' : Addr → Prop} {R R' R'' : Multiset Addr} {a t : Addr} {τ : Tag}

theorem Becomes.tag_eq {P : Prop} {v v' : Obj} (h : Becomes P v v') : v'.tag = v.tag := by
  cases h <;> rfl

/-- A waker's data and a task do not change. -/
theorem Becomes.eq_of_tag {P : Prop} {v v' : Obj} (h : Becomes P v v')
    (htag : v.tag = .waker ∨ v.tag = .task) : v' = v := by
  cases h with
  | refl => rfl
  | _ => rcases htag with h | h <;> cases h

theorem Becomes.mono {P P' : Prop} {v v' : Obj} (h : Becomes P v v') (himp : P → P') :
    Becomes P' v v' := by
  cases h with
  | refl => exact .refl _
  | state => exact .state ..
  | timer => exact .timer ..
  | reactor => exact .reactor ..
  | shared hmap => exact .shared (hmap.imp_right himp)

theorem Becomes.trans {P : Prop} {v v' v'' : Obj} (h : Becomes P v v') (h' : Becomes P v' v'') :
    Becomes P v v'' := by
  cases h with
  | refl => exact h'
  | state => cases h' <;> exact .state ..
  | timer => cases h' <;> exact .timer ..
  | reactor => cases h' <;> exact .reactor ..
  | shared hmap =>
    cases h' with
    | refl => exact .shared hmap
    | shared hmap' =>
      rcases hmap' with heq | hP
      · exact .shared (hmap.imp_left heq.trans)
      · exact .shared (.inr hP)

theorem Change.mono (h : Change S m m') (himp : ∀ b, S b → S' b) : Change S' m m' where
  next := h.next
  back b hb k v' hv' := by
    obtain ⟨v, hv, hbec⟩ := h.back b hb k v' hv'
    exact ⟨v, hv, hbec.mono (himp b)⟩
  fits := h.fits
  keeps := h.keeps

theorem lt_next_of_view (hown : m.Owned R) {k : Kind} {v : Obj} (hv : m.view a = some (k, v)) :
    a < m.next := by
  obtain ⟨c, hc, -⟩ := Mem.exists_cell hv
  exact hown.lt_next hc

/-- What a value refers to is there. -/
theorem view_ne_none_of_link (hown : m.Owned R) {k : Kind} {v : Obj} (hv : m.view a = some (k, v))
    {p : Addr × Tag} (hp : p ∈ v.links) : m.view p.1 ≠ none := by
  obtain ⟨c, hc, -, rfl⟩ := Mem.exists_cell hv
  obtain ⟨c', hc'⟩ := hown.allocated (hown.owners_pos_of_ref hc (List.mem_map_of_mem hp))
  exact fun hnone => Option.some_ne_none c' (hc'.symm.trans (Mem.view_eq_none.mp hnone))

theorem Is.view_ne_none (h : Is m a τ) : m.view a ≠ none := by
  obtain ⟨v, hv, -⟩ := h
  rw [hv]
  exact Option.some_ne_none _

theorem Is.tag_unique {τ' : Tag} (h : Is m a τ) (h' : Is m a τ') : τ = τ' := by
  obtain ⟨v, hv, rfl⟩ := h
  obtain ⟨v', hv', rfl⟩ := h'
  rw [(Prod.mk.inj (Option.some.inj (hv.symm.trans hv'))).2]

/-- A value keeps its sort as long as it is there. -/
theorem Is.change (h : Is m a τ) (hc : Change S m m') (hown : m.Owned R)
    (hne : m.view a ≠ none → m'.view a ≠ none) : Is m' a τ := by
  obtain ⟨⟨k, v'⟩, hv'⟩ := Option.ne_none_iff_exists'.mp (hne h.view_ne_none)
  obtain ⟨v, hv, htag⟩ := h
  obtain ⟨v₀, hv₀, hbec⟩ := hc.back a (lt_next_of_view hown hv) k v' hv'
  rw [hv] at hv₀
  cases hv₀
  exact ⟨v', hv', hbec.tag_eq.trans htag⟩

/-- A waker's data and a task stay the same as long as they are there. -/
theorem Change.view_eq (hc : Change S m m') (hown : m.Owned R) {k : Kind} {v : Obj}
    (hv : m.view a = some (k, v)) (htag : v.tag = .waker ∨ v.tag = .task)
    (hne : m'.view a ≠ none) : m'.view a = some (k, v) := by
  obtain ⟨⟨k', v'⟩, hv'⟩ := Option.ne_none_iff_exists'.mp hne
  obtain ⟨v₀, hv₀, hbec⟩ := hc.back a (lt_next_of_view hown hv) k' v' hv'
  rw [hv] at hv₀
  cases hv₀
  rw [hv', hbec.eq_of_tag htag]

theorem Linked.view_ne_none (h : Linked m a t) : m.view t ≠ none := by
  obtain ⟨id, st, wk, hv, -⟩ := h
  rw [hv]
  exact Option.some_ne_none _

theorem Linked.change (h : Linked m a t) (hc : Change S m m') (hown : m.Owned R)
    (hown' : m'.Owned R') (hne : m.view t ≠ none → m'.view t ≠ none) : Linked m' a t := by
  have ht' := hne h.view_ne_none
  obtain ⟨id, st, wk, ht, hst, hwk⟩ := h
  have ht' := hc.view_eq hown ht (.inr rfl) ht'
  have hst' := view_ne_none_of_link hown' (p := (st, .state)) ht' (by simp [Obj.links])
  have hwk' := view_ne_none_of_link hown' (p := (wk, .waker)) ht' (by simp [Obj.links])
  exact ⟨id, st, wk, ht', hst.change hc hown fun _ => hst', hc.view_eq hown hwk (.inl rfl) hwk'⟩

theorem Fits.change {p : Addr × Tag} (h : Fits m a p) (hc : Change S m m') (hown : m.Owned R)
    (hown' : m'.Owned R') (hne : m.view p.1 ≠ none → m'.view p.1 ≠ none) : Fits m' a p :=
  ⟨h.1.change hc hown hne, fun htask => (h.2 htask).change hc hown hown' hne⟩

/-- A change keeps the memory typed. -/
theorem Sound.change (h : Sound m R) (hc : Change S m m') (hown' : m'.Owned R') : Sound m' R' := by
  refine ⟨hown', fun b k v' hv' => ?_⟩
  obtain ⟨hk, hfits⟩ := hc.fits b k v' hv'
  refine ⟨hk, fun p hp => ?_⟩
  rcases hfits p hp with hold | hnew
  · exact hold.change hc h.owned hown' fun _ => view_ne_none_of_link hown' hv' hp
  · exact hnew

/-! ### Changes that free nothing -/

theorem keeps_of_noFree (hown : m.Owned R) (h : ∀ b, m.view b ≠ none → m'.view b ≠ none)
    (b c : Addr) (hbc : m.PointsTo b c) : m'.view c ≠ none := by
  obtain ⟨k, v, hv, hc⟩ := hbc.exists_view
  obtain ⟨p, hp, rfl⟩ := List.mem_map.mp hc
  exact h p.1 (view_ne_none_of_link hown hv hp)

theorem Is.keep (h : Is m a τ) (hs : Sound m R) (hk : Keeps S m m') : Is m' a τ :=
  h.change hk.toChange hs.owned (hk.noFree a)

theorem Keeps.trans (hs : Sound m R) (h : Keeps S m m') (hs' : Sound m' R') (h' : Keeps S m' m'')
    (hs'' : Sound m'' R'') : Keeps S m m'' where
  next := h.next.trans h'.next
  back b hb k v'' hv'' := by
    obtain ⟨v', hv', hbec'⟩ := h'.back b (Nat.lt_of_lt_of_le hb h.next) k v'' hv''
    obtain ⟨v, hv, hbec⟩ := h.back b hb k v' hv'
    exact ⟨v, hv, hbec.trans hbec'⟩
  fits b k v'' hv'' := by
    obtain ⟨hk, hfits⟩ := h'.fits b k v'' hv''
    refine ⟨hk, fun p hp => .inr ?_⟩
    rcases hfits p hp with hold | hnew
    · exact hold.change h'.toChange hs'.owned hs''.owned (h'.noFree p.1)
    · exact hnew
  keeps := keeps_of_noFree hs.owned fun b hb => h'.noFree b (h.noFree b hb)
  noFree b hb := h'.noFree b (h.noFree b hb)

theorem keeps_of_view_eq (h : Sound m R) (hview : m'.view = m.view) (hnext : m'.next = m.next) :
    Keeps S m m' where
  next := Nat.le_of_eq hnext.symm
  back _ _ _ v' hv' := ⟨v', hview ▸ hv', .refl v'⟩
  fits b k v' hv' := by
    rw [hview] at hv'
    obtain ⟨hk, hfits⟩ := h.typed b k v' hv'
    exact ⟨hk, fun p hp => .inl (hfits p hp)⟩
  keeps := keeps_of_noFree h.owned fun _ hb => hview ▸ hb
  noFree _ hb := hview ▸ hb

theorem Sound.refl (h : Sound m R) : Keeps S m m := keeps_of_view_eq h rfl rfl

/-- A reference is dropped. -/
theorem Change.release {bs : List Addr} (h : Sound m (a ::ₘ R))
    (hrel : m.release a = some (bs, m')) (hs : m.Shrunk m') : Change S m m' where
  next := Nat.le_of_eq hs.1.symm
  back b _ k v' hv' := by
    rw [hs.view_eq (by rw [hv']; exact Option.some_ne_none _)] at hv'
    exact ⟨v', hv', .refl v'⟩
  fits b k v' hv' := by
    rw [hs.view_eq (by rw [hv']; exact Option.some_ne_none _)] at hv'
    obtain ⟨hk, hfits⟩ := h.typed b k v' hv'
    exact ⟨hk, fun p hp => .inl (hfits p hp)⟩
  keeps _ _ := Mem.release_keeps h.owned hrel

/-- A reference to a shared value is cloned. -/
theorem exists_retain {v : Obj} (h : Sound m R) (hv : m.view a = some (.shared, v)) :
    ∃ m', m.retain a = some m' ∧ Sound m' (a ::ₘ R) ∧ Keeps S m m' := by
  obtain ⟨m', hm', hview, hnext, hown'⟩ := Mem.exists_retain hv
  have hk : Keeps S m m' := keeps_of_view_eq h hview hnext
  exact ⟨m', hm', h.change hk.toChange (hown' R h.owned), hk⟩

/-- **A value is written.** Its new references come from the roots, and those that it loses go to
them. -/
theorem exists_write {v : Obj} (v' : Obj) (h : Sound m R) (hv : m.view a = some (v.tag.kind, v))
    (hbec : Becomes (S a) v v') (hfits : ∀ p ∈ v'.links, p ∈ v.links ∨ Fits m a p)
    (hrefs : R + (refs v : List Addr) = R' + (refs v' : List Addr)) :
    ∃ m', m.write v.tag.kind a v' = some m' ∧ Sound m' R' ∧ Keeps S m m' := by
  obtain ⟨m', hm', hview, hnext, hown⟩ := Mem.exists_write v' hv
  have hne : ∀ b, m.view b ≠ none → m'.view b ≠ none := by
    intro b hb
    rw [hview]
    rcases eq_or_ne b a with rfl | hne
    · rw [Function.update_self]
      exact Option.some_ne_none _
    · rw [Function.update_of_ne hne]
      exact hb
  have hk : Keeps S m m' := by
    refine ⟨⟨Nat.le_of_eq hnext.symm, fun b _ k w hw => ?_, fun b k w hw => ?_,
      keeps_of_noFree h.owned hne⟩, hne⟩
    · rw [hview] at hw
      rcases eq_or_ne b a with rfl | hne
      · rw [Function.update_self] at hw
        cases hw
        exact ⟨v, hv, hbec⟩
      · rw [Function.update_of_ne hne] at hw
        exact ⟨w, hw, .refl w⟩
    · rw [hview] at hw
      rcases eq_or_ne b a with rfl | hne
      · rw [Function.update_self] at hw
        cases hw
        refine ⟨congrArg Tag.kind hbec.tag_eq.symm, fun p hp => .inl ?_⟩
        rcases hfits p hp with hold | hnew
        · exact (h.typed b _ v hv).2 p hold
        · exact hnew
      · rw [Function.update_of_ne hne] at hw
        obtain ⟨hk, hfits⟩ := h.typed b k w hw
        exact ⟨hk, fun p hp => .inl (hfits p hp)⟩
  exact ⟨m', hm', h.change hk.toChange (hown R R' hrefs h.owned), hk⟩

/-- A cell for a new value. -/
def Obj.cell (v : Obj) : Cell Obj :=
  match v.tag.kind with
  | .box => .box v
  | .shared => .shared 1 v

theorem Obj.cell_spec (v : Obj) :
    v.cell.kind = v.tag.kind ∧ v.cell.value = v ∧ v.cell.count = 1 := by
  unfold Obj.cell
  cases v <;> exact ⟨rfl, rfl, rfl⟩

/-- **There is a new value.** Its references come from the roots. -/
theorem alloc_cell {v : Obj} (h : Sound m ((refs v : List Addr) + R))
    (hfits : ∀ p ∈ v.links, Fits m m.next p) :
    Sound (m.alloc v.cell).2 (m.next ::ₘ R) ∧ Keeps S m (m.alloc v.cell).2 ∧
      (m.alloc v.cell).2.view m.next = some (v.tag.kind, v) := by
  obtain ⟨hkind, hvalue, hcount⟩ := v.cell_spec
  have hview := Mem.view_alloc (m := m) v.cell
  rw [hkind, hvalue] at hview
  have hgrown := Mem.grown_alloc (m := m) v.cell
  have hne : ∀ b, m.view b ≠ none → (m.alloc v.cell).2.view b ≠ none := by
    intro b hb
    obtain ⟨⟨k, v'⟩, hv'⟩ := Option.ne_none_iff_exists'.mp hb
    rw [hgrown.2 b (lt_next_of_view h.owned hv')]
    exact hb
  have hk : Keeps S m (m.alloc v.cell).2 := by
    refine ⟨⟨hgrown.1, fun b hb k w hw => ⟨w, hgrown.2 b hb ▸ hw, .refl w⟩, fun b k w hw => ?_,
      keeps_of_noFree h.owned hne⟩, hne⟩
    rw [hview] at hw
    rcases eq_or_ne b m.next with rfl | hne
    · rw [Function.update_self] at hw
      cases hw
      exact ⟨rfl, fun p hp => .inl (hfits p hp)⟩
    · rw [Function.update_of_ne hne] at hw
      obtain ⟨hk, hfits⟩ := h.typed b k w hw
      exact ⟨hk, fun p hp => .inl (hfits p hp)⟩
  have hown : m.Owned ((refs v.cell.value : List Addr) + R) := by
    rw [hvalue]
    exact h.owned
  exact ⟨h.change hk.toChange (hown.alloc hcount), hk,
    (congrFun hview m.next).trans (Function.update_self ..)⟩

/-! ### The accesses -/

theorem Is.exists_state (h : Is m a .state) : ∃ st, m.view a = some (.shared, .state st) := by
  obtain ⟨v, hv, htag⟩ := h
  cases v <;> first | exact ⟨_, hv⟩ | cases htag

theorem Is.exists_waker (h : Is m a .waker) :
    ∃ x st sh, m.view a = some (.box, .wakerData x st sh) := by
  obtain ⟨v, hv, htag⟩ := h
  cases v <;> first | exact ⟨_, _, _, hv⟩ | cases htag

theorem Is.exists_task (h : Is m a .task) :
    ∃ id st wk, m.view a = some (.shared, .task id st wk) := by
  obtain ⟨v, hv, htag⟩ := h
  cases v <;> first | exact ⟨_, _, _, hv⟩ | cases htag

theorem Is.exists_timer (h : Is m a .timer) : ∃ wk, m.view a = some (.shared, .timer wk) := by
  obtain ⟨v, hv, htag⟩ := h
  cases v <;> first | exact ⟨_, hv⟩ | cases htag

theorem Is.exists_reactor (h : Is m a .reactor) :
    ∃ wakers, m.view a = some (.shared, .reactor wakers) := by
  obtain ⟨v, hv, htag⟩ := h
  cases v <;> first | exact ⟨_, hv⟩ | cases htag

theorem Is.exists_shared (h : Is m a .shared) : ∃ s, m.view a = some (.shared, .shared s) := by
  obtain ⟨v, hv, htag⟩ := h
  cases v <;> first | exact ⟨_, hv⟩ | cases htag

theorem readState_eq {st : Status} (hv : m.view a = some (.shared, .state st)) :
    readState m a = some st := by
  rw [readState, Mem.read_eq hv]

theorem readWakerData_eq {x : TaskId} {st sh : Addr}
    (hv : m.view a = some (.box, .wakerData x st sh)) : readWakerData m a = some (x, st, sh) := by
  rw [readWakerData, Mem.read_eq hv]

theorem readTask_eq {id : TaskId} {st wk : Addr} (hv : m.view a = some (.shared, .task id st wk)) :
    readTask m a = some (id, st, wk) := by
  rw [readTask, Mem.read_eq hv]

theorem readTimer_eq {wk : Option Addr} (hv : m.view a = some (.shared, .timer wk)) :
    readTimer m a = some wk := by
  rw [readTimer, Mem.read_eq hv]

theorem readReactor_eq {wakers : List (Slot × Addr)}
    (hv : m.view a = some (.shared, .reactor wakers)) : readReactor m a = some wakers := by
  rw [readReactor, Mem.read_eq hv]

theorem readShared_eq {s : SharedState} (hv : m.view a = some (.shared, .shared s)) :
    readShared m a = some s := by
  rw [readShared, Mem.read_eq hv]

/-- The references of a `SharedState`. -/
theorem refs_shared (s : SharedState) : ((refs (Obj.shared s) : List Addr) : Multiset Addr) =
    {s.reactor} + (s.tasks.map Prod.snd : List Addr) + (s.timers : List Addr) := by
  rw [← Multiset.coe_singleton, Multiset.coe_add, Multiset.coe_add]
  simp [refs, Obj.links, Function.comp_def]

theorem refs_timer (wk : Option Addr) : refs (Obj.timer wk) = wk.toList := by
  simp [refs, Obj.links, Function.comp_def]

theorem refs_reactor (wakers : List (Slot × Addr)) :
    refs (Obj.reactor wakers) = wakers.map Prod.snd := by
  simp [refs, Obj.links, Function.comp_def]

/-- The entries of a table that `p` tells, and the others. -/
theorem map_snd_filter {α : Type} (l : List (α × Addr)) (p : α → Bool) :
    ((l.map Prod.snd : List Addr) : Multiset Addr) =
      ((l.filter fun entry => p entry.1).map Prod.snd : List Addr) +
        ((l.filter fun entry => !p entry.1).map Prod.snd : List Addr) := by
  have hperm := List.filter_append_perm (fun entry : α × Addr => p entry.1) l
  rw [Multiset.coe_add, ← List.map_append, Multiset.coe_eq_coe]
  exact (hperm.map Prod.snd).symm

theorem exists_writeState (h : Sound m R) (hst : Is m a .state) (st : Status) :
    ∃ m', writeState m a st = some m' ∧ Sound m' R ∧ Keeps S m m' := by
  obtain ⟨st₀, hv⟩ := hst.exists_state
  obtain ⟨m', hm', hspec⟩ := exists_write (.state st) h hv (.state st₀ st) (fun p hp => .inl hp) rfl
  refine ⟨m', ?_, hspec⟩
  rw [writeState, readState_eq hv]
  exact hm'

theorem exists_writeQueue {s : SharedState} (h : Sound m R)
    (hv : m.view a = some (.shared, .shared s)) (q : ReadyQueue) :
    ∃ m', writeShared m a { s with queue := q } = some m' ∧ Sound m' R ∧ Keeps S m m' :=
  exists_write (v := .shared s) (.shared { s with queue := q }) h hv (.shared (.inl rfl))
    (fun _ hp => .inl hp) rfl

theorem exists_enqueue (h : Sound m R) (hsh : Is m a .shared) (x : TaskId) :
    ∃ m', enqueue m a x = some m' ∧ Sound m' R ∧ Keeps S m m' := by
  obtain ⟨s, hv⟩ := hsh.exists_shared
  obtain ⟨m', hm', hspec⟩ := exists_writeQueue h hv (s.queue.enqueue x)
  refine ⟨m', ?_, hspec⟩
  rw [enqueue, readShared_eq hv]
  exact hm'

/-- The entries of the `TimerWheel` are changed. -/
theorem exists_writeTimers {s : SharedState} (timers : List Addr) (h : Sound m R)
    (hv : m.view a = some (.shared, .shared s)) (hnew : ∀ t ∈ timers, t ∈ s.timers ∨ Is m t .timer)
    (hrefs : R + (s.timers : List Addr) = R' + (timers : List Addr)) :
    ∃ m', writeShared m a { s with timers := timers } = some m' ∧ Sound m' R' ∧ Keeps S m m' := by
  refine exists_write (v := .shared s) (.shared { s with timers := timers }) h hv
    (.shared (.inl rfl)) (fun p hp => ?_) ?_
  · simp only [Obj.links, List.mem_cons, List.mem_append] at hp ⊢
    rcases hp with hp | hp | hp
    · exact .inl (.inl hp)
    · exact .inl (.inr (.inl hp))
    · obtain ⟨t, ht, rfl⟩ := List.mem_map.mp hp
      rcases hnew t ht with hold | hnew
      · exact .inl (.inr (.inr (List.mem_map_of_mem hold)))
      · exact .inr ⟨hnew, fun htask => by cases htask⟩
  · rw [refs_shared, refs_shared, add_left_comm, hrefs, add_left_comm]

/-- Entries of the map are replaced. -/
theorem exists_replaceTasks (id : TaskId) (new : List (TaskId × Addr)) (hS : S a)
    (h : Sound m ((new.map Prod.snd : List Addr) + R)) (hsh : Is m a .shared)
    (hnew : ∀ entry ∈ new, Linked m a entry.2) :
    ∃ old m', replaceTasks m a id new = some (old, m') ∧ Sound m' ((old : Multiset Addr) + R) ∧
      Keeps S m m' := by
  obtain ⟨s, hv⟩ := hsh.exists_shared
  have hfits : ∀ p ∈ (Obj.shared { s with tasks := new ++ s.tasks.filter (·.1 ≠ id) }).links,
      p ∈ (Obj.shared s).links ∨ Fits m a p := by
    intro p hp
    simp only [Obj.links, List.mem_cons, List.mem_append, List.map_append] at hp ⊢
    rcases hp with hp | (hp | hp) | hp
    · exact .inl (.inl hp)
    · obtain ⟨entry, hentry, rfl⟩ := List.mem_map.mp hp
      have hlinked := hnew entry hentry
      obtain ⟨id, st, wk, ht, -⟩ := hnew entry hentry
      exact .inr ⟨⟨_, ht, rfl⟩, fun _ => hlinked⟩
    · obtain ⟨entry, hentry, rfl⟩ := List.mem_map.mp hp
      exact .inl (.inr (.inl (List.mem_map_of_mem (List.mem_of_mem_filter hentry))))
    · exact .inl (.inr (.inr hp))
  have hrefs : ((new.map Prod.snd : List Addr) + R) + (refs (Obj.shared s) : List Addr) =
      (((s.tasks.filter (·.1 = id)).map Prod.snd : List Addr) + R) +
        (refs (Obj.shared { s with tasks := new ++ s.tasks.filter (·.1 ≠ id) }) : List Addr) := by
    rw [refs_shared, refs_shared, map_snd_filter s.tasks fun key => decide (key = id)]
    simp only [List.map_append, ← Multiset.coe_add, ne_eq, decide_not]
    ac_rfl
  obtain ⟨m', hm', hspec⟩ := exists_write (S := S) _ h hv (.shared (.inr hS)) hfits hrefs
  refine ⟨_, m', ?_, hspec⟩
  have hm' : writeShared m a _ = some m' := hm'
  simp only [replaceTasks, readShared_eq hv, Option.bind_eq_bind, Option.bind_some, hm']

/-- The waker in the cell of a timer is replaced. -/
theorem exists_replaceTimer (new : Option Addr) (h : Sound m ((new.toList : List Addr) + R))
    (ht : Is m t .timer) (hnew : ∀ ptr ∈ new, Is m ptr .waker) :
    ∃ old m', replaceTimer m t new = some (old, m') ∧ (∀ ptr ∈ old, Is m' ptr .waker) ∧
      Sound m' ((old.toList : List Addr) + R) ∧ Keeps S m m' := by
  obtain ⟨old, hv⟩ := ht.exists_timer
  have hold : ∀ ptr ∈ old, Is m ptr .waker := fun ptr hptr =>
    ((h.typed _ _ _ hv).2 (ptr, .waker) (List.mem_map_of_mem (Option.mem_toList.mpr hptr))).1
  have hfits : ∀ p ∈ (Obj.timer new).links, p ∈ (Obj.timer old).links ∨ Fits m t p := by
    intro p hp
    obtain ⟨ptr, hptr, rfl⟩ := List.mem_map.mp hp
    exact .inr ⟨hnew ptr (Option.mem_toList.mp hptr), fun htask => by cases htask⟩
  have hrefs : ((new.toList : List Addr) + R) + (refs (Obj.timer old) : List Addr) =
      ((old.toList : List Addr) + R) + (refs (Obj.timer new) : List Addr) := by
    rw [refs_timer, refs_timer]
    ac_rfl
  obtain ⟨m', hm', hs', hk⟩ := exists_write (S := S) _ h hv (.timer old new) hfits hrefs
  refine ⟨old, m', ?_, fun ptr hptr => (hold ptr hptr).keep h hk, hs', hk⟩
  have hm' : m.write .shared t (.timer new) = some m' := hm'
  simp only [replaceTimer, readTimer_eq hv, Option.bind_eq_bind, Option.bind_some, hm']

/-- Wakers in the registrations are replaced. -/
theorem exists_replaceWakers (p : Slot → Bool) (new : List (Slot × Addr))
    (h : Sound m ((new.map Prod.snd : List Addr) + R)) (hr : Is m a .reactor)
    (hnew : ∀ entry ∈ new, Is m entry.2 .waker) :
    ∃ old m', replaceWakers m a p new = some (old, m') ∧ (∀ ptr ∈ old, Is m' ptr .waker) ∧
      Sound m' ((old : Multiset Addr) + R) ∧ Keeps S m m' := by
  obtain ⟨wakers, hv⟩ := hr.exists_reactor
  have hold : ∀ entry ∈ wakers, Is m entry.2 .waker := fun entry hentry =>
    ((h.typed _ _ _ hv).2 (entry.2, .waker) (List.mem_map_of_mem hentry)).1
  have hfits : ∀ q ∈ (Obj.reactor (new ++ wakers.filter fun entry => !p entry.1)).links,
      q ∈ (Obj.reactor wakers).links ∨ Fits m a q := by
    intro q hq
    obtain ⟨entry, hentry, rfl⟩ := List.mem_map.mp hq
    refine .inr ⟨?_, fun htask => by cases htask⟩
    rcases List.mem_append.mp hentry with hentry | hentry
    · exact hnew entry hentry
    · exact hold entry (List.mem_of_mem_filter hentry)
  have hrefs : ((new.map Prod.snd : List Addr) + R) + (refs (Obj.reactor wakers) : List Addr) =
      (((wakers.filter fun entry => p entry.1).map Prod.snd : List Addr) + R) +
        (refs (Obj.reactor (new ++ wakers.filter fun entry => !p entry.1)) : List Addr) := by
    rw [refs_reactor, refs_reactor, map_snd_filter wakers p, List.map_append, ← Multiset.coe_add]
    ac_rfl
  obtain ⟨m', hm', hs', hk⟩ := exists_write (S := S) _ h hv (.reactor ..) hfits hrefs
  refine ⟨_, m', ?_, fun ptr hptr => ?_, hs', hk⟩
  · have hm' : m.write .shared a (.reactor _) = some m' := hm'
    simp only [replaceWakers, readReactor_eq hv, Option.bind_eq_bind, Option.bind_some, hm']
  · obtain ⟨entry, hentry, rfl⟩ := List.mem_map.mp hptr
    exact (hold entry (List.mem_of_mem_filter hentry)).keep h hk

end Memory

/-! ### The calls -/

/-- The handle at `owner` gives access to the waker at `ptr`: it is this waker, or a task whose
waker it is. -/
def Reaches (m : Heap) (owner ptr : Addr) : Prop :=
  owner = ptr ∧ Is m ptr .waker ∨ ∃ id st, m.view owner = some (.shared, .task id st ptr)

/-- A call has access to the waker, which it borrows or owns. -/
def Access (m : Heap) (ptr : Addr) : Option Addr → Prop
  | some owner => Reaches m owner ptr
  | none => Is m ptr .waker

/-- What a call relies on. -/
def Call.Ok (m : Heap) : Call → Prop
  | cloneState owner ptr => Reaches m owner ptr
  | cloneShared owner ptr taskState => Reaches m owner ptr ∧ Is m taskState .state
  | cloneBox owner ptr taskState shared =>
    Reaches m owner ptr ∧ Is m taskState .state ∧ Is m shared .shared
  | load owner ptr | cas owner ptr _ | enqueue owner ptr | signal owner ptr => Access m ptr owner
  | insert shared _ task => Is m shared .shared ∧ Linked m shared task
  | enqueueNew shared _ | signalNew shared => Is m shared .shared
  | fire timer => Is m timer .timer
  | dropping _ => True

section Calls

variable {m m' : Heap} {S : Addr → Prop} {R R' : Multiset Addr} {owner ptr : Addr}

theorem Reaches.change (h : Reaches m owner ptr) (hc : Change S m m') (hown : m.Owned R)
    (hne : m.view owner ≠ none → m'.view owner ≠ none) : Reaches m' owner ptr := by
  rcases h with ⟨rfl, his⟩ | ⟨id, st, hv⟩
  · exact .inl ⟨rfl, his.change hc hown hne⟩
  · have hne := hne (by rw [hv]; exact Option.some_ne_none _)
    exact .inr ⟨id, st, hc.view_eq hown hv (.inr rfl) hne⟩

theorem Access.change {o : Option Addr} (h : Access m ptr o) (hc : Change S m m') (hown : m.Owned R)
    (hne : ∀ b ∈ o.toList ++ Call.ownBox ptr o, m.view b ≠ none → m'.view b ≠ none) :
    Access m' ptr o := by
  cases o with
  | none => exact Is.change h hc hown (hne ptr (by simp [Call.ownBox]))
  | some owner => exact Reaches.change h hc hown (hne owner (by simp))

/-- What a call relies on is not taken from it by others. -/
theorem Call.Ok.change {c : Call} (h : c.Ok m) (hc : Change S m m') (hown : m.Owned R)
    (hown' : m'.Owned R')
    (hne : ∀ b ∈ c.borrows ++ c.owned, m.view b ≠ none → m'.view b ≠ none) : c.Ok m' := by
  cases c with
  | cloneState owner ptr => exact Reaches.change h hc hown (hne _ (by simp [borrows]))
  | cloneShared owner ptr taskState =>
    exact ⟨h.1.change hc hown (hne _ (by simp [borrows])),
      h.2.change hc hown (hne _ (by simp [owned]))⟩
  | cloneBox owner ptr taskState shared =>
    exact ⟨h.1.change hc hown (hne _ (by simp [borrows])),
      h.2.1.change hc hown (hne _ (by simp [owned])),
      h.2.2.change hc hown (hne _ (by simp [owned]))⟩
  | load owner ptr | cas owner ptr _ | enqueue owner ptr | signal owner ptr =>
    exact Access.change h hc hown hne
  | insert shared id task =>
    exact ⟨h.1.change hc hown (hne _ (by simp [borrows])),
      h.2.change hc hown hown' (hne _ (by simp [owned]))⟩
  | enqueueNew shared id => exact Is.change h hc hown (hne _ (by simp [borrows]))
  | signalNew shared => exact Is.change h hc hown (hne _ (by simp [borrows]))
  | fire timer => exact Is.change h hc hown (hne _ (by simp [owned]))
  | dropping pending => trivial

theorem Call.Ok.keep {c : Call} (h : c.Ok m) (hs : Sound m R) (hk : Keeps S m m')
    (hs' : Sound m' R') : c.Ok m' :=
  h.change hk.toChange hs.owned hs'.owned fun b _ => hk.noFree b

/-- A waker that a call has access to, with what its data refers to. -/
theorem Access.exists_data {o : Option Addr} (h : Access m ptr o) (ht : Typed m) :
    ∃ x st sh, m.view ptr = some (.box, .wakerData x st sh) ∧ Is m st .state ∧ Is m sh .shared := by
  have his : Is m ptr .waker := by
    cases o with
    | none => exact h
    | some owner =>
      rcases h with ⟨-, his⟩ | ⟨id, st, hv⟩
      · exact his
      · exact ((ht _ _ _ hv).2 (ptr, .waker) (by simp [Obj.links])).1
  obtain ⟨x, st, sh, hv⟩ := his.exists_waker
  have hlinks := (ht _ _ _ hv).2
  exact ⟨x, st, sh, hv, (hlinks (st, .state) (by simp [Obj.links])).1,
    (hlinks (sh, .shared) (by simp [Obj.links])).1⟩

/-- The reactor of a `SharedState`. -/
theorem Is.exists_shared_reactor {a : Addr} (h : Is m a .shared) (ht : Typed m) :
    ∃ s wakers, m.view a = some (.shared, .shared s) ∧ Is m s.reactor .reactor ∧
      m.view s.reactor = some (.shared, .reactor wakers) := by
  obtain ⟨s, hv⟩ := h.exists_shared
  have hr := ((ht _ _ _ hv).2 (s.reactor, .reactor) List.mem_cons_self).1
  obtain ⟨wakers, hwakers⟩ := hr.exists_reactor
  exact ⟨s, wakers, hv, hr, hwakers⟩

/-- What an access of the call `c` does; `R` are the references that others own. -/
structure Stepped (c : Call) (R : Multiset Addr) (m : Heap) (n : Next) : Prop where
  sound : Sound n.mem
    ((n.handles.map Handle.addr : List Addr) + (n.calls.flatMap Call.owned : List Addr) + R)
  change : Change (· ∈ c.maps) m n.mem
  handles : ∀ hd ∈ n.handles, hd.tag = .waker ∧ Is n.mem hd.addr hd.tag
  calls : ∀ c' ∈ n.calls, c'.Ok n.mem
  borrows : ∀ a ∈ n.calls.flatMap Call.borrows, a ∈ c.borrows

/-- The next access of a call that goes on as `cs`, and makes no handles. -/
theorem Stepped.of_calls {c : Call} {cs : List Call} (hc : Change (· ∈ c.maps) m m')
    (hs : Sound m' ((cs.flatMap Call.owned : List Addr) + R)) (hok : ∀ c' ∈ cs, c'.Ok m')
    (hborrows : ∀ a ∈ cs.flatMap Call.borrows, a ∈ c.borrows) : Stepped c R m ⟨m', [], cs⟩ where
  sound := by
    rw [List.map_nil, Multiset.coe_nil, zero_add]
    exact hs
  change := hc
  handles hd hhd := by cases hhd
  calls := hok
  borrows := hborrows

theorem Stepped.of_call {c c' : Call} (hc : Change (· ∈ c.maps) m m')
    (hs : Sound m' ((c'.owned : Multiset Addr) + R)) (hok : c'.Ok m')
    (hborrows : c'.borrows = c.borrows) : Stepped c R m ⟨m', [], [c']⟩ := by
  refine .of_calls hc ?_ (fun c'' hc'' => ?_) fun a ha => ?_
  · rw [List.flatMap_singleton]
    exact hs
  · rw [List.mem_singleton.mp hc'']
    exact hok
  · rw [List.flatMap_singleton, hborrows] at ha
    exact ha

/-- The return from `wake_by_ref_impl`. -/
theorem Stepped.of_ret {c : Call} {o : Option Addr} (hc : Change (· ∈ c.maps) m m')
    (hs : Sound m' ((Call.ownBox ptr o : List Addr) + R)) :
    Stepped c R m ⟨m', [], Call.ret ptr o⟩ := by
  refine .of_calls hc ?_ (fun c' hc' => ?_) fun a ha => ?_
  · cases o <;> exact hs
  · cases o with
    | none =>
      rw [List.mem_singleton.mp hc']
      trivial
    | some owner => cases hc'
  · cases o <;> cases ha

/-- A call that ends. -/
theorem Stepped.of_end {c : Call} (hc : Change (· ∈ c.maps) m m') (hs : Sound m' R) :
    Stepped c R m ⟨m', [], []⟩ := by
  refine .of_calls hc ?_ (fun c' hc' => by cases hc') fun a ha => by cases ha
  rw [List.flatMap_nil, Multiset.coe_nil, zero_add]
  exact hs

namespace Call

theorem exists_step_cloneState {owner ptr : Addr} {spurious : Bool} (h : Sound m R)
    (hok : (cloneState owner ptr).Ok m) :
    ∃ n, (cloneState owner ptr).step m spurious = some n ∧
      Stepped (cloneState owner ptr) R m n := by
  obtain ⟨x, st, sh, hv, hst, -⟩ := Access.exists_data (o := some owner) hok h.typed
  obtain ⟨st₀, hst₀⟩ := hst.exists_state
  obtain ⟨m', hretain, hs', hk⟩ := exists_retain h hst₀
  refine ⟨⟨m', [], [cloneShared owner ptr st]⟩, ?_, .of_call hk.toChange hs' ?_ rfl⟩
  · simp only [Call.step, readWakerData_eq hv, Option.bind_eq_bind, Option.bind_some, hretain]
  · exact Call.Ok.keep (c := cloneShared owner ptr st) ⟨hok, hst⟩ h hk hs'

theorem exists_step_cloneShared {owner ptr st : Addr} {spurious : Bool} (h : Sound m (st ::ₘ R))
    (hok : (cloneShared owner ptr st).Ok m) :
    ∃ n, (cloneShared owner ptr st).step m spurious = some n ∧
      Stepped (cloneShared owner ptr st) R m n := by
  obtain ⟨hreach, hst⟩ := hok
  obtain ⟨x, st₁, sh, hv, -, hsh⟩ := Access.exists_data (o := some owner) hreach h.typed
  obtain ⟨s, hsh₀⟩ := hsh.exists_shared
  obtain ⟨m', hretain, hs', hk⟩ := exists_retain h hsh₀
  refine ⟨⟨m', [], [cloneBox owner ptr st sh]⟩, ?_, .of_call hk.toChange ?_ ?_ rfl⟩
  · simp only [Call.step, readWakerData_eq hv, Option.bind_eq_bind, Option.bind_some, hretain]
  · simpa [owned, ← Multiset.cons_coe, Multiset.cons_swap] using hs'
  · exact Call.Ok.keep (c := cloneBox owner ptr st sh) ⟨hreach, hst, hsh⟩ h hk hs'

theorem exists_step_cloneBox {owner ptr st sh : Addr} {spurious : Bool}
    (h : Sound m (([st, sh] : List Addr) + R)) (hok : (cloneBox owner ptr st sh).Ok m) :
    ∃ n, (cloneBox owner ptr st sh).step m spurious = some n ∧
      Stepped (cloneBox owner ptr st sh) R m n := by
  obtain ⟨hreach, hst, hsh⟩ := hok
  obtain ⟨x, st₁, sh₁, hv, -, -⟩ := Access.exists_data (o := some owner) hreach h.typed
  obtain ⟨hs', hk, hnew⟩ := alloc_cell (v := .wakerData x st sh) h (by
    intro p hp
    simp only [Obj.links, List.mem_cons, List.not_mem_nil, or_false] at hp
    rcases hp with rfl | rfl
    · exact ⟨hst, fun htask => by cases htask⟩
    · exact ⟨hsh, fun htask => by cases htask⟩)
  refine ⟨⟨_, [.waker m.next], []⟩, ?_, ?_, hk.toChange, fun hd hhd => ?_,
    fun c hc => (by cases hc), fun a ha => by cases ha⟩
  · simp only [Call.step, readWakerData_eq hv, Option.bind_eq_bind, Option.bind_some]
    rfl
  · simpa [Handle.addr] using hs'
  · rw [List.mem_singleton.mp hhd]
    exact ⟨rfl, _, hnew, rfl⟩

theorem exists_step_load {o : Option Addr} {ptr : Addr} {spurious : Bool}
    (h : Sound m ((ownBox ptr o : List Addr) + R)) (hok : (load o ptr).Ok m) :
    ∃ n, (load o ptr).step m spurious = some n ∧ Stepped (load o ptr) R m n := by
  obtain ⟨x, st, sh, hv, hst, -⟩ := Access.exists_data hok h.typed
  obtain ⟨st₀, hst₀⟩ := hst.exists_state
  simp only [Call.step, readWakerData_eq hv, Option.bind_eq_bind, Option.bind_some,
    readState_eq hst₀]
  cases st₀ with
  | idle => exact ⟨_, rfl, .of_call h.refl.toChange h hok rfl⟩
  | running => exact ⟨_, rfl, .of_call h.refl.toChange h hok rfl⟩
  | scheduled => exact ⟨_, rfl, .of_ret h.refl.toChange h⟩
  | notified => exact ⟨_, rfl, .of_ret h.refl.toChange h⟩

theorem exists_step_cas {o : Option Addr} {ptr : Addr} {seen : Status} {spurious : Bool}
    (h : Sound m ((ownBox ptr o : List Addr) + R)) (hok : (cas o ptr seen).Ok m) :
    ∃ n, (cas o ptr seen).step m spurious = some n ∧ Stepped (cas o ptr seen) R m n := by
  obtain ⟨x, st, sh, hv, hst, -⟩ := Access.exists_data hok h.typed
  obtain ⟨st₀, hst₀⟩ := hst.exists_state
  simp only [Call.step, readWakerData_eq hv, Option.bind_eq_bind, Option.bind_some,
    readState_eq hst₀]
  split_ifs
  · cases seen with
    | idle =>
      obtain ⟨m', hm', hs', hk⟩ := exists_writeState h hst .scheduled
      refine ⟨⟨m', [], [enqueue o ptr]⟩, ?_, .of_call hk.toChange hs' ?_ rfl⟩
      · simp only [hm', Option.bind_some]
      · exact Call.Ok.keep (c := enqueue o ptr) hok h hk hs'
    | scheduled | running | notified =>
      obtain ⟨m', hm', hs', hk⟩ := exists_writeState h hst .notified
      refine ⟨⟨m', [], ret ptr o⟩, ?_, .of_ret hk.toChange hs'⟩
      simp only [hm', Option.bind_some]
  · exact ⟨_, rfl, .of_call h.refl.toChange h hok rfl⟩

theorem exists_step_enqueue {o : Option Addr} {ptr : Addr} {spurious : Bool}
    (h : Sound m ((ownBox ptr o : List Addr) + R)) (hok : (enqueue o ptr).Ok m) :
    ∃ n, (enqueue o ptr).step m spurious = some n ∧ Stepped (enqueue o ptr) R m n := by
  obtain ⟨x, st, sh, hv, -, hsh⟩ := Access.exists_data hok h.typed
  obtain ⟨m', hm', hs', hk⟩ := exists_enqueue h hsh x
  refine ⟨⟨m', [], [signal o ptr]⟩, ?_, .of_call hk.toChange hs' ?_ rfl⟩
  · simp only [Call.step, readWakerData_eq hv, Option.bind_eq_bind, Option.bind_some, hm']
  · exact Call.Ok.keep (c := signal o ptr) hok h hk hs'

theorem exists_step_signal {o : Option Addr} {ptr : Addr} {spurious : Bool}
    (h : Sound m ((ownBox ptr o : List Addr) + R)) (hok : (signal o ptr).Ok m) :
    ∃ n, (signal o ptr).step m spurious = some n ∧ Stepped (signal o ptr) R m n := by
  obtain ⟨x, st, sh, hv, -, hsh⟩ := Access.exists_data hok h.typed
  obtain ⟨s, wakers, hsh₀, -, hr⟩ := hsh.exists_shared_reactor h.typed
  refine ⟨⟨m, [], ret ptr o⟩, ?_, .of_ret h.refl.toChange h⟩
  simp only [Call.step, readWakerData_eq hv, Option.bind_eq_bind, Option.bind_some,
    readShared_eq hsh₀, readReactor_eq hr]

theorem exists_step_insert {sh t : Addr} {id : TaskId} {spurious : Bool} (h : Sound m (t ::ₘ R))
    (hok : (insert sh id t).Ok m) :
    ∃ n, (insert sh id t).step m spurious = some n ∧ Stepped (insert sh id t) R m n := by
  obtain ⟨hsh, hlinked⟩ := hok
  obtain ⟨old, m', hm', hs', hk⟩ := exists_replaceTasks (S := (· ∈ [sh])) (R := R) id [(id, t)]
    (List.mem_singleton_self sh) h hsh (fun entry he => by
      rw [List.mem_singleton.mp he]
      exact hlinked)
  refine ⟨⟨m', [], [enqueueNew sh id, dropping old]⟩, ?_, .of_calls hk.toChange ?_
    (fun c' hc' => ?_) fun a ha => ha⟩
  · simp only [Call.step, Option.bind_eq_bind, hm', Option.bind_some]
  · simpa [owned] using hs'
  · simp only [List.mem_cons, List.not_mem_nil, or_false] at hc'
    rcases hc' with rfl | rfl
    · exact hsh.keep h hk
    · trivial

theorem exists_step_enqueueNew {sh : Addr} {id : TaskId} {spurious : Bool} (h : Sound m R)
    (hok : (enqueueNew sh id).Ok m) :
    ∃ n, (enqueueNew sh id).step m spurious = some n ∧ Stepped (enqueueNew sh id) R m n := by
  obtain ⟨m', hm', hs', hk⟩ := exists_enqueue h hok id
  refine ⟨⟨m', [], [signalNew sh]⟩, ?_, .of_call hk.toChange ?_ (Is.keep hok h hk) rfl⟩
  · simp only [Call.step, Option.bind_eq_bind, Option.bind_some, hm']
  · simpa [owned] using hs'

theorem exists_step_signalNew {sh : Addr} {spurious : Bool} (h : Sound m R)
    (hok : (signalNew sh).Ok m) :
    ∃ n, (signalNew sh).step m spurious = some n ∧ Stepped (signalNew sh) R m n := by
  obtain ⟨s, wakers, hsh, -, hr⟩ := Is.exists_shared_reactor hok h.typed
  refine ⟨⟨m, [], []⟩, ?_, .of_end h.refl.toChange h⟩
  simp only [Call.step, Option.bind_eq_bind, Option.bind_some, readShared_eq hsh, readReactor_eq hr]

theorem exists_step_fire {t : Addr} {spurious : Bool} (h : Sound m (t ::ₘ R))
    (hok : (fire t).Ok m) : ∃ n, (fire t).step m spurious = some n ∧ Stepped (fire t) R m n := by
  obtain ⟨old, m', hm', hold, hs', hk⟩ := exists_replaceTimer (S := (· ∈ (fire t).maps))
    (R := t ::ₘ R) none (by simpa using h) hok (fun ptr hptr => by cases hptr)
  refine ⟨⟨m', [], old.toList.map (load none) ++ [dropping [t]]⟩, ?_, .of_calls hk.toChange ?_
    (fun c' hc' => ?_) fun a ha => ?_⟩
  · simp only [Call.step, Option.bind_eq_bind, Option.bind_some, hm']
  · cases old with
    | none => simpa [owned] using hs'
    | some ptr => simpa [owned, ownBox, ← Multiset.cons_coe, Multiset.cons_swap] using hs'
  · rcases List.mem_append.mp hc' with hc' | hc'
    · obtain ⟨ptr, hptr, rfl⟩ := List.mem_map.mp hc'
      exact hold ptr (Option.mem_toList.mp hptr)
    · rw [List.mem_singleton.mp hc']
      trivial
  · cases old <;> cases ha

theorem exists_step_dropping {pending : List Addr} {spurious : Bool}
    (h : Sound m ((pending : Multiset Addr) + R)) :
    ∃ n, (dropping pending).step m spurious = some n ∧ Stepped (dropping pending) R m n := by
  cases pending with
  | nil => exact ⟨⟨m, [], []⟩, rfl, .of_end h.refl.toChange (by simpa using h)⟩
  | cons a pending =>
    rw [← Multiset.cons_coe, Multiset.cons_add] at h
    obtain ⟨more, m', hrel, hown', -, hshrunk⟩ := Mem.exists_release h.owned
    have hc : Change (· ∈ (dropping (a :: pending)).maps) m m' := .release h hrel hshrunk
    rw [← add_assoc, Multiset.coe_add] at hown'
    refine ⟨⟨m', [], [dropping (more ++ pending)]⟩, ?_, .of_call hc (h.change hc hown') trivial rfl⟩
    simp only [Call.step, hrel, Option.bind_eq_bind, Option.bind_some]

/-- **The next access of a call succeeds.** -/
theorem exists_step {c : Call} (spurious : Bool) (hok : c.Ok m)
    (h : Sound m ((c.owned : Multiset Addr) + R)) :
    ∃ n, c.step m spurious = some n ∧ Stepped c R m n := by
  cases c with
  | cloneState owner ptr => exact exists_step_cloneState (by simpa [owned] using h) hok
  | cloneShared owner ptr st => exact exists_step_cloneShared (by simpa [owned] using h) hok
  | cloneBox owner ptr st sh => exact exists_step_cloneBox h hok
  | load o ptr => exact exists_step_load h hok
  | cas o ptr seen => exact exists_step_cas h hok
  | enqueue o ptr => exact exists_step_enqueue h hok
  | signal o ptr => exact exists_step_signal h hok
  | insert sh id t => exact exists_step_insert (by simpa [owned] using h) hok
  | enqueueNew sh id => exact exists_step_enqueueNew (by simpa [owned] using h) hok
  | signalNew sh => exact exists_step_signalNew (by simpa [owned] using h) hok
  | fire t => exact exists_step_fire (by simpa [owned] using h) hok
  | dropping pending => exact exists_step_dropping h

end Call

end Calls

end MiniAsync.MultiThread.Raw
