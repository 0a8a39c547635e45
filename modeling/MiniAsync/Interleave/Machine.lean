/-
  Interleaved threads over a shared state.

  A `Machine` gives the atomic steps of a program: `exec i s f x` is the step
  that thread `i` takes in the shared state `s` when its topmost call frame is
  `f` and the scheduler (or the environment) resolves its nondeterminism by
  `x`. The step changes the shared state and replaces the frame by a list of
  frames: the empty list is a return, a list of two frames is a call.

  A configuration is a shared state with one stack of frames a thread. Nothing
  is said about the program here: the notions of a run and of a configuration
  reached by a run, the induction rules for invariants and the bookkeeping of
  frames (how many frames of a kind exist, and how a step changes that number)
  are the same for every machine.
-/
import Mathlib.Algebra.BigOperators.Group.Finset.Basic
import Mathlib.Algebra.GroupWithZero.Nat
import Mathlib.Algebra.Order.BigOperators.Group.Finset
import Mathlib.Algebra.Order.BigOperators.Group.Multiset
import Mathlib.Tactic.Common

namespace MiniAsync.Interleave

variable {σ φ χ : Type*}

/-- The atomic steps of a multi-threaded program. `exec i s f x = some (s', fs)` says that thread
`i`, with frame `f` on top of its stack, may turn the shared state `s` into `s'` and its frame `f`
into the frames `fs` (topmost first). -/
structure Machine (σ φ χ : Type*) where
  exec : ℕ → σ → φ → χ → Option (σ × List φ)

/-- A shared state together with the call stack of every thread, topmost frame first. -/
@[ext]
structure Config (σ φ : Type*) where
  shared : σ
  threads : List (List φ)

namespace Config

/-- All call frames of all threads, without their order. -/
def frames (c : Config σ φ) : Multiset φ := (c.threads.flatten : Multiset φ)

/-- The topmost frame of a thread. -/
def top (c : Config σ φ) (i : ℕ) : Option φ := c.threads[i]?.bind List.head?

end Config

/-! ### Weights of frames -/

/-- One if the flag is set. -/
def ind (b : Bool) : ℕ := cond b 1 0

@[simp] theorem ind_true : ind true = 1 := rfl
@[simp] theorem ind_false : ind false = 0 := rfl

theorem ind_le_one (b : Bool) : ind b ≤ 1 := by cases b <;> simp

theorem ind_pos_iff {b : Bool} : 0 < ind b ↔ b = true := by cases b <;> simp

theorem ind_decide (p : Prop) [Decidable p] : ind (decide p) = if p then 1 else 0 := by
  split_ifs with hp <;> simp [hp]

/-- The total weight of a collection of frames. With a weight that is `0` or `1` this is the
number of frames of a kind. -/
def weigh (w : φ → ℕ) (F : Multiset φ) : ℕ := (F.map w).sum

@[simp] theorem weigh_cons (w : φ → ℕ) (f : φ) (F : Multiset φ) :
    weigh w (f ::ₘ F) = w f + weigh w F := by
  simp [weigh]

@[simp] theorem weigh_coe_add (w : φ → ℕ) (fs : List φ) (F : Multiset φ) :
    weigh w (↑fs + F) = (fs.map w).sum + weigh w F := by
  simp [weigh]

theorem weigh_coe (w : φ → ℕ) (fs : List φ) : weigh w ↑fs = (fs.map w).sum := by
  simp [weigh]

theorem le_weigh (w : φ → ℕ) {f : φ} {F : Multiset φ} (hf : f ∈ F) : w f ≤ weigh w F := by
  obtain ⟨G, rfl⟩ := Multiset.exists_cons_of_mem hf
  rw [weigh_cons]
  exact Nat.le_add_right _ _

theorem weigh_eq_zero_iff (w : φ → ℕ) (F : Multiset φ) : weigh w F = 0 ↔ ∀ f ∈ F, w f = 0 := by
  simp [weigh, Multiset.sum_eq_zero_iff]

theorem weigh_pos_iff (w : φ → ℕ) (F : Multiset φ) : 0 < weigh w F ↔ ∃ f ∈ F, 0 < w f := by
  rw [Nat.pos_iff_ne_zero, Ne, weigh_eq_zero_iff]
  push Not
  simp only [Nat.pos_iff_ne_zero]

theorem weigh_le_weigh {w v : φ → ℕ} (h : ∀ f, w f ≤ v f) (F : Multiset φ) :
    weigh w F ≤ weigh v F :=
  Multiset.sum_map_le_sum_map w v fun f _ => h f

theorem weigh_add (w v : φ → ℕ) (F : Multiset φ) :
    weigh (fun f => w f + v f) F = weigh w F + weigh v F :=
  Multiset.sum_map_add

/-- Counting is weighing with ones. -/
theorem countP_eq_weigh (p : φ → Prop) [DecidablePred p] (F : Multiset φ) :
    F.countP p = weigh (fun f => if p f then 1 else 0) F := by
  induction F using Multiset.induction_on with
  | empty => rfl
  | cons f F ih => rw [Multiset.countP_cons, weigh_cons, ih, Nat.add_comm]

theorem exists_stack_of_top {c : Config σ φ} {i : ℕ} {f : φ} (h : c.top i = some f) :
    ∃ k, c.threads[i]? = some (f :: k) := by
  obtain ⟨st, hst, hhead⟩ := Option.bind_eq_some_iff.mp h
  cases st with
  | nil => cases hhead
  | cons g k =>
    obtain rfl := Option.some.inj hhead
    exact ⟨k, hst⟩

theorem mem_frames_of_top {c : Config σ φ} {i : ℕ} {f : φ} (h : c.top i = some f) :
    f ∈ c.frames := by
  obtain ⟨st, hst, hf⟩ := Option.bind_eq_some_iff.mp h
  exact Multiset.mem_coe.mpr
    (List.mem_flatten.mpr ⟨st, List.mem_of_getElem? hst, List.mem_of_mem_head? hf⟩)

/-- Distinct threads that each hold a frame of positive weight are at most as many as the total
weight. -/
theorem length_le_weigh (w : φ → ℕ) (c : Config σ φ) (l : List ℕ) (hl : l.Nodup)
    (h : ∀ i ∈ l, ∃ st, c.threads[i]? = some st ∧ ∃ f ∈ st, 0 < w f) :
    l.length ≤ weigh w c.frames := by
  have hsum : weigh w c.frames
      = ∑ i ∈ Finset.range c.threads.length, (((c.threads[i]?).getD []).map w).sum := by
    rw [Config.frames, weigh_coe]
    induction c.threads with
    | nil => simp
    | cons st ts ih =>
      rw [List.flatten_cons, List.map_append, List.sum_append, ih, List.length_cons,
        Finset.sum_range_succ']
      simp [Nat.add_comm]
  have hsub : l.toFinset ⊆ Finset.range c.threads.length := by
    intro i hi
    obtain ⟨st, hst, -⟩ := h i (List.mem_toFinset.mp hi)
    exact Finset.mem_range.mpr (List.getElem?_eq_some_iff.mp hst).1
  calc l.length = ∑ _i ∈ l.toFinset, 1 := by
        rw [← Finset.card_eq_sum_ones, List.toFinset_card_of_nodup hl]
    _ ≤ ∑ i ∈ l.toFinset, (((c.threads[i]?).getD []).map w).sum := by
        refine Finset.sum_le_sum fun i hi => ?_
        obtain ⟨st, hst, f, hf, hpos⟩ := h i (List.mem_toFinset.mp hi)
        rw [hst, Option.getD_some, ← weigh_coe]
        exact Nat.lt_of_lt_of_le hpos (le_weigh w (Multiset.mem_coe.mpr hf))
    _ ≤ weigh w c.frames := hsum ▸ Finset.sum_le_sum_of_subset hsub

namespace Machine

variable (M : Machine σ φ χ)

/-! ### Steps and runs -/

/-- Thread `i` takes one step. A thread with an empty stack has ended. -/
def step (c : Config σ φ) (i : ℕ) (x : χ) : Option (Config σ φ) :=
  match c.threads[i]? with
  | some (f :: k) => (M.exec i c.shared f x).map fun r => ⟨r.1, c.threads.set i (r.2 ++ k)⟩
  | _ => none

/-- The configuration after the steps of a schedule, each of which has to satisfy `ok`. -/
def run (ok : Config σ φ → ℕ → χ → Prop) [∀ c i x, Decidable (ok c i x)] (c : Config σ φ) :
    List (ℕ × χ) → Option (Config σ φ)
  | [] => some c
  | (i, x) :: acts => if ok c i x then (M.step c i x).bind fun d => run ok d acts else none

/-- `M.ReachesVia ok c₀ c`: a run leads from `c₀` to `c`, and each step of it, taken by thread
`i` with the choice `x` in a configuration `d`, satisfies `ok d i x`. -/
inductive ReachesVia (ok : Config σ φ → ℕ → χ → Prop) (c₀ : Config σ φ) : Config σ φ → Prop
  | refl : ReachesVia ok c₀ c₀
  | step {c c' : Config σ φ} {i : ℕ} {x : χ} (h : ReachesVia ok c₀ c) (hok : ok c i x)
      (hs : M.step c i x = some c') : ReachesVia ok c₀ c'

/-- `c` is reached from `c₀` by some interleaving. -/
def Reaches (c₀ c : Config σ φ) : Prop := M.ReachesVia (fun _ _ _ => True) c₀ c

variable {M}

theorem ReachesVia.reaches {ok : Config σ φ → ℕ → χ → Prop} {c₀ c : Config σ φ}
    (h : M.ReachesVia ok c₀ c) : M.Reaches c₀ c := by
  induction h with
  | refl => exact .refl
  | step _ _ hs ih => exact .step ih trivial hs

theorem ReachesVia.trans {ok : Config σ φ → ℕ → χ → Prop} {a b c : Config σ φ}
    (hab : M.ReachesVia ok a b) (hbc : M.ReachesVia ok b c) : M.ReachesVia ok a c := by
  induction hbc with
  | refl => exact hab
  | step _ hok hs ih => exact .step ih hok hs

theorem Reaches.trans {a b c : Config σ φ} (hab : M.Reaches a b) (hbc : M.Reaches b c) :
    M.Reaches a c :=
  ReachesVia.trans hab hbc

/-- An executed schedule witnesses reachability. -/
theorem reachesVia_of_run {ok : Config σ φ → ℕ → χ → Prop} [∀ c i x, Decidable (ok c i x)]
    {c₀ c : Config σ φ} {acts : List (ℕ × χ)} (h : M.run ok c₀ acts = some c) :
    M.ReachesVia ok c₀ c := by
  induction acts generalizing c₀ with
  | nil =>
    obtain rfl := Option.some.inj h
    exact .refl
  | cons a acts ih =>
    simp only [run] at h
    split_ifs at h with hok
    obtain ⟨d, hd, hrun⟩ := Option.bind_eq_some_iff.mp h
    exact ReachesVia.trans (.step .refl hok hd) (ih hrun)

/-- A schedule whose final configuration passes the test `p` witnesses that such a configuration
is reached. -/
theorem exists_reachesVia_of_run {ok : Config σ φ → ℕ → χ → Prop}
    [∀ c i x, Decidable (ok c i x)] {c₀ : Config σ φ} (acts : List (ℕ × χ))
    (p : Config σ φ → Prop) [DecidablePred p] (h : (M.run ok c₀ acts).any (p ·) = true) :
    ∃ c, M.ReachesVia ok c₀ c ∧ p c := by
  obtain ⟨c, hrun, hp⟩ := (Option.any_eq_true _ _).mp h
  exact ⟨c, reachesVia_of_run hrun, of_decide_eq_true hp⟩

/-! ### What a step does -/

/-- The frames apart from the one on top of thread `i`. -/
theorem frames_eq_cons {c : Config σ φ} {i : ℕ} {f : φ} {k : List φ}
    (h : c.threads[i]? = some (f :: k)) :
    c.frames = f ::ₘ ↑((c.threads.take i).flatten ++ (k ++ (c.threads.drop (i + 1)).flatten)) := by
  obtain ⟨hlt, hget⟩ := List.getElem?_eq_some_iff.mp h
  -- cut the list of stacks at thread `i`
  have hsplit : c.threads = c.threads.take i ++ (f :: k) :: c.threads.drop (i + 1) := by
    rw [← hget, List.getElem_cons_drop, List.take_append_drop]
  rw [Config.frames]
  conv_lhs => rw [hsplit]
  rw [List.flatten_append, List.flatten_cons, List.cons_append, Multiset.cons_coe,
    Multiset.coe_eq_coe]
  exact List.perm_middle

/-- Everything a step does: the frame `f` on top of thread `i` is executed and replaced by `fs`;
the rest `k` of that stack, all other stacks and all other frames `R` stay. -/
theorem step_cases {c c' : Config σ φ} {i : ℕ} {x : χ} (h : M.step c i x = some c') :
    ∃ f k fs R, c.threads[i]? = some (f :: k) ∧ M.exec i c.shared f x = some (c'.shared, fs) ∧
      c'.threads = c.threads.set i (fs ++ k) ∧ c.frames = f ::ₘ R ∧ c'.frames = ↑fs + R := by
  unfold step at h
  split at h
  · rename_i f k hi
    obtain ⟨⟨s', fs⟩, hex, rfl⟩ := Option.map_eq_some_iff.mp h
    have hlt := (List.getElem?_eq_some_iff.mp hi).1
    refine ⟨f, k, fs, _, hi, hex, rfl, frames_eq_cons hi, ?_⟩
    rw [Config.frames]
    dsimp only
    rw [List.set_eq_take_append_cons_drop, if_pos hlt, List.flatten_append, List.flatten_cons,
      Multiset.coe_add, Multiset.coe_eq_coe]
    exact ((List.append_assoc _ _ _).symm ▸ List.perm_append_comm_assoc _ _ _)
  · exact absurd h (by simp)

/-- A thread whose topmost frame can be executed can take a step. -/
theorem exists_step {c : Config σ φ} {i : ℕ} {x : χ} {f : φ} {r : σ × List φ}
    (htop : c.top i = some f) (hex : M.exec i c.shared f x = some r) :
    ∃ c', M.step c i x = some c' := by
  obtain ⟨k, hk⟩ := exists_stack_of_top htop
  refine ⟨⟨r.1, c.threads.set i (r.2 ++ k)⟩, ?_⟩
  simp only [step, hk, hex, Option.map_some]

/-- The stack of a thread after a step is the new one or the one it had. -/
theorem threads_set_cases {ts : List (List φ)} {i j : ℕ} {st st' : List φ}
    (h : (ts.set i st')[j]? = some st) :
    (j = i ∧ st = st') ∨ (j ≠ i ∧ ts[j]? = some st) := by
  rw [List.getElem?_set] at h
  split_ifs at h with hij hlt
  · exact Or.inl ⟨hij.symm, (Option.some.inj h).symm⟩
  · exact Or.inr ⟨fun e => hij e.symm, h⟩

theorem top_eq_of_ne {c c' : Config σ φ} {i j : ℕ} {st : List φ}
    (h : c'.threads = c.threads.set i st) (hj : j ≠ i) : c'.top j = c.top j := by
  rw [Config.top, Config.top, h, List.getElem?_set_ne (Ne.symm hj)]

theorem top_eq_self {c c' : Config σ φ} {i : ℕ} {f : φ} {k st : List φ}
    (h : c'.threads = c.threads.set i st) (hi : c.threads[i]? = some (f :: k)) :
    c'.top i = st.head? := by
  have hlt := (List.getElem?_eq_some_iff.mp hi).1
  rw [Config.top, h, List.getElem?_set_self hlt, Option.bind_some]

/-! ### Invariants -/

/-- **Invariant rule.** A property of the start that every admitted step from a reached
configuration keeps holds in every reached configuration. -/
theorem ReachesVia.invariant {ok : Config σ φ → ℕ → χ → Prop} {c₀ c : Config σ φ}
    {I : Config σ φ → Prop} (h : M.ReachesVia ok c₀ c) (h₀ : I c₀)
    (hstep : ∀ c c' i x, M.Reaches c₀ c → ok c i x → M.step c i x = some c' → I c → I c') :
    I c := by
  induction h with
  | refl => exact h₀
  | step hr hok hs ih => exact hstep _ _ _ _ hr.reaches hok hs ih

/-- **Frame invariant rule.** An invariant of the shared state and the frames is established by
looking at one executed frame `f` among arbitrary others `R`. What is already known of reached
configurations may be used before and after the step. -/
theorem ReachesVia.frame_invariant {ok : Config σ φ → ℕ → χ → Prop} {c₀ c : Config σ φ}
    {I : σ → Multiset φ → Prop} (h : M.ReachesVia ok c₀ c) (h₀ : I c₀.shared c₀.frames)
    (hstep : ∀ c c' i x f (fs : List φ) R, M.Reaches c₀ c → M.Reaches c₀ c' → ok c i x →
      c.top i = some f → c.frames = f ::ₘ R → c'.frames = ↑fs + R →
      M.exec i c.shared f x = some (c'.shared, fs) →
      I c.shared (f ::ₘ R) → I c'.shared (↑fs + R)) :
    I c.shared c.frames := by
  refine ReachesVia.invariant (I := fun c => I c.shared c.frames) h h₀ ?_
  intro c c' i x hc hok hs hI
  obtain ⟨f, k, fs, R, htop, hex, -, hF, hF'⟩ := step_cases hs
  have hf : c.top i = some f := by simp [Config.top, htop]
  rw [hF] at hI
  rw [hF']
  exact hstep c c' i x f fs R hc (hc.step trivial hs) hok hf hF hF' hex hI

/-! ### Steps of a kind -/

variable (M) in
/-- `M.Counts p c₀ k c`: a run leads from `c₀` to `c`, and `k` of its steps have executed a frame
of the kind `p`. -/
inductive Counts (p : φ → Bool) (c₀ : Config σ φ) : ℕ → Config σ φ → Prop
  | refl : Counts p c₀ 0 c₀
  | step {k : ℕ} {c c' : Config σ φ} {i : ℕ} {x : χ} {f : φ} (h : Counts p c₀ k c)
      (htop : c.top i = some f) (hs : M.step c i x = some c') : Counts p c₀ (k + ind (p f)) c'

theorem Counts.reaches {p : φ → Bool} {c₀ c : Config σ φ} {k : ℕ} (h : M.Counts p c₀ k c) :
    M.Reaches c₀ c := by
  induction h with
  | refl => exact .refl
  | step _ _ hs ih => exact .step ih trivial hs

/-- The steps of every run can be counted. -/
theorem Reaches.exists_counts {c₀ c : Config σ φ} (h : M.Reaches c₀ c) (p : φ → Bool) :
    ∃ k, M.Counts p c₀ k c := by
  induction h with
  | refl => exact ⟨0, .refl⟩
  | step _ _ hs ih =>
    obtain ⟨k, hk⟩ := ih
    obtain ⟨f, rest, -, -, hi, -⟩ := step_cases hs
    exact ⟨_, hk.step (f := f) (by simp [Config.top, hi]) hs⟩

/-- **Frame invariant rule** for what is true of the number of steps of a kind. -/
theorem Counts.frame_invariant {p : φ → Bool} {c₀ c : Config σ φ} {k : ℕ}
    {I : ℕ → σ → Multiset φ → Prop} (h : M.Counts p c₀ k c) (h₀ : I 0 c₀.shared c₀.frames)
    (hstep : ∀ k (c c' : Config σ φ) i x f (fs : List φ) R, M.Reaches c₀ c → c.frames = f ::ₘ R →
      M.exec i c.shared f x = some (c'.shared, fs) → I k c.shared (f ::ₘ R) →
      I (k + ind (p f)) c'.shared (↑fs + R)) :
    I k c.shared c.frames := by
  induction h with
  | refl => exact h₀
  | @step k c c' i x f hc htop hs ih =>
    obtain ⟨g, rest, fs, R, hi, hex, -, hF, hF'⟩ := step_cases hs
    -- the frame on top is the one that is executed
    obtain rfl : g = f := by
      rw [Config.top, hi] at htop
      exact Option.some.inj htop
    rw [hF']
    exact hstep k c c' i x g fs R hc.reaches hF hex (hF ▸ ih)

end Machine

end MiniAsync.Interleave
