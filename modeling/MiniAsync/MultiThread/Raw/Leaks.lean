/-
  What the references of the multi-threaded runtime leak.

  A waker refers to the `SharedState`, and the `SharedState` holds wakers: that of each
  task in its map, and those that are stored in its timers and in its reactor
  (`Holds`). A task that has not finished when the runtime is dropped is never freed,
  and neither is the `SharedState` (`dropped_runtime_leaks`). The same goes for a
  `Sleep` that is polled once and dropped, since it leaves its waker in the timer.

  There is no other leak (`finished_runtime_freed`). The references of values other
  than a `SharedState` go down in rank (`exists_shared_or_rank_lt`), so that every
  cycle goes through a `SharedState` and from there to a waker that it holds
  (`exists_holds_of_cycle`); and every cell is kept alive by a root or by a cycle.
-/
import MiniAsync.MultiThread.Raw.Runs

namespace MiniAsync.MultiThread.Raw

open Memory Trace Relation

section Dropped

variable {h h' : List (Op × Unit)} {w w' : World} {a : Addr} {s : SharedState}

/-- One step of a `SharedState` that has tasks and no handle. -/
theorem Moved.leak (hm : Moved w w') (hinv : Inv w)
    (hv : w.mem.view a = some (.shared, .shared s)) (hne : s.tasks ≠ [])
    (hgone : Handle.shared a ∉ w.handles) :
    (∃ s', w'.mem.view a = some (.shared, .shared s') ∧ s'.tasks = s.tasks) ∧
      Handle.shared a ∉ w'.handles := by
  have hlt := lt_next_of_view hinv.sound.owned hv
  refine ⟨?_, fun hmem => hgone (hm.shared a hlt hmem)⟩
  -- the waker of a task in the map keeps it
  obtain ⟨entry, hentry⟩ := List.exists_mem_of_ne_nil s.tasks hne
  obtain ⟨id, st, wk, -, -, hwk⟩ := ((hinv.sound.typed _ _ _ hv).2 (entry.2, .task)
    (List.mem_cons_of_mem _ (List.mem_append_left _ (List.mem_map_of_mem hentry)))).2 rfl
  obtain ⟨c, hc, -, hvalue⟩ := Mem.exists_cell hwk
  have hpoints : w.mem.PointsTo wk a := by
    rw [Mem.PointsTo, hc, Mem.refsOf, hvalue]
    simp [refs, Obj.links]
  obtain ⟨⟨k, v'⟩, hv'⟩ := Option.ne_none_iff_exists'.mp (hm.change.keeps wk a hpoints)
  obtain ⟨v, hv₀, hbec⟩ := hm.change.back a hlt k v' hv'
  rw [hv] at hv₀
  cases hv₀
  cases hbec with
  | refl => exact ⟨s, hv', rfl⟩
  | shared hmap => exact ⟨_, hv', hmap.resolve_right hgone⟩

/-- **A runtime that is dropped before its tasks have finished is never freed.** Once there is no
handle to a `SharedState` whose map is not empty, whatever is done, it stays allocated with all
these tasks, their states and their wakers. -/
theorem dropped_runtime_leaks (hr : Run (ofStep World.step) World.new h w)
    (hv : w.mem.view a = some (.shared, .shared s)) (hne : s.tasks ≠ [])
    (hgone : Handle.shared a ∉ w.handles) (hr' : Run (ofStep World.step) w h' w') :
    (∃ s', w'.mem.view a = some (.shared, .shared s') ∧ s'.tasks = s.tasks) ∧
      ∀ entry ∈ s.tasks, Linked w'.mem a entry.2 := by
  have hinv := run_inv hr
  have hkeep : Inv w' ∧ (∃ s', w'.mem.view a = some (.shared, .shared s') ∧ s'.tasks = s.tasks) ∧
      Handle.shared a ∉ w'.handles := by
    induction hr' with
    | nil => exact ⟨hinv, ⟨s, hv, rfl⟩, hgone⟩
    | snoc _ hs ih =>
      obtain ⟨hinv, ⟨s', hv', htasks⟩, hgone'⟩ := ih
      have hmoved := hinv.of_step hs
      rw [← htasks] at hne ⊢
      exact ⟨hmoved.inv, hmoved.leak hinv hv' hne hgone'⟩
  obtain ⟨hinv', ⟨s', hv', htasks⟩, -⟩ := hkeep
  refine ⟨⟨s', hv', htasks⟩, fun entry hentry => ?_⟩
  rw [← htasks] at hentry
  exact ((hinv'.sound.typed _ _ _ hv').2 (entry.2, .task)
    (List.mem_cons_of_mem _ (List.mem_append_left _ (List.mem_map_of_mem hentry)))).2 rfl

/-- The runtime is dropped, and the task is still in its map. -/
theorem dropped_runtime_leaks_spawned :
    ∃ h w, Run (ofStep World.step) World.new h w ∧ w.roots = [] ∧
      ∀ h' w', Run (ofStep World.step) w h' w' → w'.mem.view 1 ≠ none := by
  obtain ⟨h, w, hr, ⟨hhandles, hroots⟩, hview⟩ := exists_run_of_foldlM (f := World.step)
    (s := World.new) (spawned ++ [.drop 0, .go 0 false, .go 0 false])
    (fun w => (w.handles = [] ∧ w.roots = []) ∧
      w.mem.view 1 = some (.shared, .shared ⟨[(7, 4)], ⟨[7], {7}⟩, [], 0⟩)) (by decide)
  refine ⟨h, w, hr, hroots, fun h' w' hr' => ?_⟩
  have hgone : Handle.shared 1 ∉ w.handles := by
    rw [hhandles]
    exact List.not_mem_nil
  obtain ⟨⟨s', hs', -⟩, -⟩ := dropped_runtime_leaks hr hview (List.cons_ne_nil _ _) hgone hr'
  rw [hs']
  exact Option.some_ne_none _

end Dropped

/-! ### Cycles -/

/-- The `SharedState` at `sh` holds the waker at `ptr`: it is that of a task in the map, or it is
stored in a timer or in the reactor. -/
def Holds (m : Heap) (sh ptr : Addr) : Prop :=
  ∃ s, m.view sh = some (.shared, .shared s) ∧
    ((∃ entry ∈ s.tasks, ∃ id st, m.view entry.2 = some (.shared, .task id st ptr)) ∨
      (∃ t ∈ s.timers, m.view t = some (.shared, .timer (some ptr))) ∨
      ∃ wakers slot, m.view s.reactor = some (.shared, .reactor wakers) ∧ (slot, ptr) ∈ wakers)

def Tag.rank : Tag → ℕ
  | .state => 0
  | .waker => 1
  | .task | .timer | .reactor => 2
  | .shared => 0

/-- The rank of the value at an address. -/
def rank (m : Heap) (a : Addr) : ℕ := ((m.view a).map fun p => p.2.tag.rank).getD 0

section Cycles

variable {m : Heap} {a b c sh : Addr}

theorem Is.rank_eq {τ : Tag} (h : Is m a τ) : rank m a = τ.rank := by
  obtain ⟨v, hv, rfl⟩ := h
  rw [rank, hv]
  rfl

/-- A reference, with the value that has it. -/
theorem exists_link (ht : Typed m) (hbc : m.PointsTo b c) :
    ∃ v τ, m.view b = some (v.tag.kind, v) ∧ (c, τ) ∈ v.links ∧ Is m c τ := by
  obtain ⟨k, v, hv, hc⟩ := hbc.exists_view
  obtain ⟨⟨c, τ⟩, hp, rfl⟩ := List.mem_map.mp hc
  obtain ⟨rfl, hfits⟩ := ht b k v hv
  exact ⟨v, τ, hv, hp, (hfits _ hp).1⟩

/-- References from and to values other than a `SharedState` go down. -/
theorem exists_shared_or_rank_lt (ht : Typed m) (hbc : m.PointsTo b c) :
    Is m b .shared ∨ Is m c .shared ∨ rank m c < rank m b := by
  obtain ⟨v, τ, hv, hp, hc⟩ := exists_link ht hbc
  have hb : Is m b v.tag := ⟨v, hv, rfl⟩
  rw [hb.rank_eq, hc.rank_eq]
  cases v with
  | state st => cases hp
  | shared s => exact .inl hb
  | wakerData x st sh =>
    simp only [Obj.links, List.mem_cons, List.not_mem_nil, or_false, Prod.mk.injEq] at hp
    rcases hp with ⟨-, rfl⟩ | ⟨-, rfl⟩
    · exact .inr (.inr Nat.one_pos)
    · exact .inr (.inl hc)
  | task id st wk =>
    simp only [Obj.links, List.mem_cons, List.not_mem_nil, or_false, Prod.mk.injEq] at hp
    rcases hp with ⟨-, rfl⟩ | ⟨-, rfl⟩
    · exact .inr (.inr Nat.two_pos)
    · exact .inr (.inr Nat.one_lt_two)
  | timer wk =>
    obtain ⟨ptr, -, heq⟩ := List.mem_map.mp hp
    cases heq
    exact .inr (.inr Nat.one_lt_two)
  | reactor wakers =>
    obtain ⟨entry, -, heq⟩ := List.mem_map.mp hp
    cases heq
    exact .inr (.inr Nat.one_lt_two)

/-- A path goes through a `SharedState`, or it goes down. -/
theorem exists_shared_of_path (ht : Typed m) (hbc : TransGen m.PointsTo b c) :
    (∃ sh, Is m sh .shared ∧ ReflTransGen m.PointsTo b sh ∧ ReflTransGen m.PointsTo sh c) ∨
      rank m c < rank m b := by
  induction hbc with
  | single hbc =>
    rcases exists_shared_or_rank_lt ht hbc with hb | hc | hlt
    · exact .inl ⟨b, hb, .refl, .single hbc⟩
    · exact .inl ⟨_, hc, .single hbc, .refl⟩
    · exact .inr hlt
  | tail hpath hcd ih =>
    rcases ih with ⟨sh, hsh, hbsh, hshc⟩ | hlt
    · exact .inl ⟨sh, hsh, hbsh, hshc.tail hcd⟩
    · rcases exists_shared_or_rank_lt ht hcd with hc | hd | hlt'
      · exact .inl ⟨_, hc, hpath.to_reflTransGen, .single hcd⟩
      · exact .inl ⟨_, hd, hpath.to_reflTransGen.tail hcd, .refl⟩
      · exact .inr (hlt'.trans hlt)

/-- What is before a `SharedState` on a path is not a state. -/
theorem not_state_of_path (ht : Typed m) (hsh : Is m sh .shared)
    (hpath : ReflTransGen m.PointsTo a sh) : ¬ Is m a .state := by
  intro ha
  rcases hpath.cases_head with rfl | ⟨b, hab, -⟩
  · cases ha.tag_unique hsh
  · obtain ⟨v, τ, hv, hp, -⟩ := exists_link ht hab
    have htag := ha.tag_unique ⟨v, hv, rfl⟩
    cases v with
    | state st => cases hp
    | _ => cases htag

/-- A `SharedState` that leads back to itself holds a waker that leads back to it. -/
theorem exists_holds_of_cycle (ht : Typed m) (hsh : Is m sh .shared)
    (hcycle : TransGen m.PointsTo sh sh) :
    ∃ ptr, Holds m sh ptr ∧ ReflTransGen m.PointsTo ptr sh := by
  obtain ⟨b, hshb, hb⟩ := TransGen.head'_iff.mp hcycle
  obtain ⟨v, τ, hv, hp, hbτ⟩ := exists_link ht hshb
  have htag := hsh.tag_unique ⟨v, hv, rfl⟩
  obtain ⟨s, rfl⟩ : ∃ s, v = .shared s := by
    cases v <;> first | exact ⟨_, rfl⟩ | cases htag
  have hne : τ ≠ .shared := by
    rintro rfl
    simp [Obj.links] at hp
  -- from the `SharedState` one comes to its reactor, a task or a timer, and then to a waker
  rcases hb.cases_head with rfl | ⟨c, hbc, hc⟩
  · exact absurd (hbτ.tag_unique hsh) hne
  · obtain ⟨v', τ', hv', hp', hcτ'⟩ := exists_link ht hbc
    have htag' := hbτ.tag_unique ⟨v', hv', rfl⟩
    subst htag'
    refine ⟨c, ⟨s, hv, ?_⟩, hc⟩
    simp only [Obj.links, List.mem_cons, List.mem_append, List.mem_map, Prod.mk.injEq] at hp
    rcases hp with ⟨rfl, hreactor⟩ | ⟨entry, hentry, rfl, htask⟩ | ⟨t, htimer, rfl, htag⟩
    · cases v' <;> cases hreactor
      obtain ⟨⟨slot, ptr⟩, hmem, heq⟩ := List.mem_map.mp hp'
      cases heq
      exact .inr (.inr ⟨_, slot, hv', hmem⟩)
    · cases v' <;> cases htask
      simp only [Obj.links, List.mem_cons, List.not_mem_nil, or_false, Prod.mk.injEq] at hp'
      rcases hp' with ⟨rfl, rfl⟩ | ⟨rfl, -⟩
      · exact absurd hcτ' (not_state_of_path ht hsh hc)
      · exact .inl ⟨entry, hentry, _, _, hv'⟩
    · cases v' <;> cases htag
      obtain ⟨ptr, hmem, heq⟩ := List.mem_map.mp hp'
      cases heq
      obtain rfl := Option.mem_toList.mp hmem
      exact .inr (.inl ⟨t, htimer, hv'⟩)

end Cycles

/-- **Only a `SharedState` that keeps itself alive leaks**, and what is forgotten. Every cell is
kept alive by a handle (a forgotten one counts, too) or by a call, or by a `SharedState` that holds
a waker (in its map, its timers or its reactor) which leads back to it. When no `SharedState` holds
a waker any more, every cell is kept alive by a handle or a call; and if there are none of these,
the memory is empty. -/
theorem finished_runtime_freed {h : List (Op × Unit)} {w : World}
    (hr : Run (ofStep World.step) World.new h w) :
    (∀ a, w.mem.cells a ≠ none → (∃ r ∈ w.roots, ReflTransGen w.mem.PointsTo r a) ∨
      ∃ sh ptr, Holds w.mem sh ptr ∧ ReflTransGen w.mem.PointsTo ptr sh ∧
        ReflTransGen w.mem.PointsTo sh a) ∧
    ((∀ sh ptr, ¬ Holds w.mem sh ptr) →
      (∀ a, w.mem.cells a ≠ none → ∃ r ∈ w.roots, ReflTransGen w.mem.PointsTo r a) ∧
      (w.roots = [] → ∀ a, w.mem.cells a = none)) := by
  have hinv := run_inv hr
  have hkept : ∀ a, w.mem.cells a ≠ none → (∃ r ∈ w.roots, ReflTransGen w.mem.PointsTo r a) ∨
      ∃ sh ptr, Holds w.mem sh ptr ∧ ReflTransGen w.mem.PointsTo ptr sh ∧
        ReflTransGen w.mem.PointsTo sh a := by
    intro a ha
    obtain ⟨c, hc⟩ := Option.ne_none_iff_exists'.mp ha
    refine (hinv.sound.owned.exists_root_or_cycle hc).imp_right ?_
    rintro ⟨b, hcycle, hba⟩
    rcases exists_shared_of_path hinv.sound.typed hcycle with ⟨sh, hsh, hbsh, hshb⟩ | hlt
    · obtain ⟨ptr, hholds, hptr⟩ := exists_holds_of_cycle hinv.sound.typed hsh
        ((TransGen.trans_right hshb hcycle).trans_left hbsh)
      exact ⟨sh, ptr, hholds, hptr, hshb.trans hba⟩
    · exact absurd hlt (Nat.lt_irrefl _)
  refine ⟨hkept, fun hnone => ?_⟩
  have hroot : ∀ a, w.mem.cells a ≠ none → ∃ r ∈ w.roots, ReflTransGen w.mem.PointsTo r a :=
    fun a ha => (hkept a ha).resolve_right fun ⟨sh, ptr, hholds, _⟩ => hnone sh ptr hholds
  refine ⟨hroot, fun hnil a => ?_⟩
  by_contra hne
  obtain ⟨r, hr, -⟩ := hroot a hne
  rw [hnil] at hr
  cases hr

/-- A task sleeps: it has been looked up, its waker has been cloned into a new timer, and the
`Sleep` has been dropped. -/
def slept : List Op :=
  spawned ++ [.lookup 0 7, .sleep 0, .clone 1] ++ List.replicate 3 (.go 0 false) ++
    [.arm 3 2, .go 0 false, .drop 2] ++ List.replicate 2 (.go 0 false)

/-- The task has returned and is removed, and the worker lets go of it. -/
def finished : List Op :=
  [.remove 0 7] ++ List.replicate 2 (.go 0 false) ++ [.drop 1] ++ List.replicate 6 (.go 0 false)

/-- A task that has slept for a while is done, and the runtime is dropped. If the timer has not
fired, the `SharedState` stays although its map is empty; if it has fired, the memory is empty. -/
theorem finished_runtime_freed_slept :
    (∃ h w sh ptr, Run (ofStep World.step) World.new h w ∧ w.roots = [] ∧
      w.mem.view 1 = some (.shared, .shared ⟨[], ⟨[7], {7}⟩, [5], 0⟩) ∧ Holds w.mem sh ptr) ∧
    ∃ h w, Run (ofStep World.step) World.new h w ∧ 5 < w.mem.next ∧ ∀ a, w.mem.cells a = none := by
  constructor
  · obtain ⟨h, w, hr, hroots, hview⟩ := exists_run_of_foldlM (f := World.step) (s := World.new)
      (slept ++ finished ++ [.drop 0, .go 0 false, .go 0 false])
      (fun w => w.roots = [] ∧
        w.mem.view 1 = some (.shared, .shared ⟨[], ⟨[7], {7}⟩, [5], 0⟩)) (by decide)
    have hcell : w.mem.cells 1 ≠ none := fun hnone => by
      rw [Mem.view_eq_none.mpr hnone] at hview
      cases hview
    rcases (finished_runtime_freed hr).1 1 hcell with ⟨r, hr, -⟩ | ⟨sh, ptr, hholds, -⟩
    · rw [hroots] at hr
      cases hr
    · exact ⟨h, w, sh, ptr, hr, hroots, hview, hholds⟩
  · obtain ⟨h, w, hr, hroots, hnext, hgone⟩ := exists_run_of_foldlM (f := World.step)
      (s := World.new)
      (slept ++ finished ++ .fire 0 0 :: List.replicate 8 (.go 0 false) ++
        .drop 0 :: List.replicate 3 (.go 0 false))
      (fun w => w.roots = [] ∧ w.mem.next = 7 ∧
        ∀ a ∈ List.range 7, (w.mem.view a).all (fun p => p.2.tag ≠ .shared) = true) (by decide)
    refine ⟨h, w, hr, by rw [hnext]; decide, ((finished_runtime_freed hr).2 ?_).2 hroots⟩
    rintro sh ptr ⟨s, hv, -⟩
    have hlt : sh < 7 := hnext ▸ lt_next_of_view (run_inv hr).sound.owned hv
    have hall := hgone sh (List.mem_range.mpr hlt)
    rw [hv] at hall
    cases hall

end MiniAsync.MultiThread.Raw
