/-
  Neighbouring call frames. What a frame in the middle of a stack waits for is
  known from the frame directly above it, the call it has made; the topmost
  frame waits for nothing. An invariant of this kind relates every frame to what
  is above it, and is kept when the step of a thread re-establishes it around the
  frames it replaces and leaves it intact for all other frames.
-/
import MiniAsync.Interleave.Machine

namespace MiniAsync.Interleave

variable {σ φ χ : Type*}

/-- Every frame of the stack `st` is related by `A` to what is directly above it, where `o` is
above the topmost frame of `st`. -/
def Linked (A : Option φ → φ → Prop) : Option φ → List φ → Prop
  | _, [] => True
  | o, f :: st => A o f ∧ Linked A (some f) st

theorem linked_append {A : Option φ → φ → Prop} {o : Option φ} {fs st : List φ} :
    Linked A o (fs ++ st) ↔ Linked A o fs ∧ Linked A (fs.getLast?.or o) st := by
  induction fs generalizing o with
  | nil => simp [Linked]
  | cons f fs ih =>
    have hlast : (f :: fs).getLast?.or o = fs.getLast?.or (some f) := by
      rw [List.getLast?_cons]
      cases fs.getLast? <;> rfl
    rw [List.cons_append, Linked, Linked, ih, hlast, and_assoc]

theorem Linked.imp {A B : Option φ → φ → Prop} {st : List φ} {o : Option φ}
    (h : ∀ o, ∀ f ∈ st, A o f → B o f) (hl : Linked A o st) : Linked B o st := by
  induction st generalizing o with
  | nil => trivial
  | cons f st ih =>
    obtain ⟨hf, hst⟩ := hl
    exact ⟨h o f List.mem_cons_self hf, ih (fun o g hg => h o g (List.mem_cons_of_mem f hg)) hst⟩

/-- A frame of the stack is its topmost one, or has a frame directly above it. -/
theorem Linked.mem_cases {A : Option φ → φ → Prop} {st : List φ} {o : Option φ} {f : φ}
    (h : Linked A o st) (hf : f ∈ st) : st.head? = some f ∨ ∃ g, A (some g) f := by
  induction st generalizing o with
  | nil => cases hf
  | cons g st ih =>
    rcases List.mem_cons.mp hf with rfl | hmem
    · exact Or.inl rfl
    · refine Or.inr ?_
      rcases ih h.2 hmem with hhead | hex
      · cases st with
        | nil => cases hhead
        | cons g' st =>
          obtain rfl := Option.some.inj hhead
          exact ⟨g, h.2.1⟩
      · exact hex

/-- The topmost frame has nothing above it. -/
theorem linked_of_top {A : Option φ → φ → Prop} {c : Config σ φ} {i : ℕ} {f : φ}
    (h : ∀ st ∈ c.threads, Linked A none st) (hf : c.top i = some f) : A none f := by
  obtain ⟨st, hst, hhead⟩ := Option.bind_eq_some_iff.mp hf
  have hl := h st (List.mem_of_getElem? hst)
  cases st with
  | nil => cases hhead
  | cons g st =>
    obtain rfl := Option.some.inj hhead
    exact hl.1

namespace Machine

variable {M : Machine σ φ χ}

/-- The frames of other threads, and those below in the same stack, are among the rest. -/
theorem mem_rest {c : Config σ φ} {i : ℕ} {f : φ} {k : List φ} {R : Multiset φ}
    (hi : c.threads[i]? = some (f :: k)) (hF : c.frames = f ::ₘ R) :
    (∀ g ∈ k, g ∈ R) ∧
      ∀ j st, j ≠ i → c.threads[j]? = some st → ∀ g ∈ st, g ∈ R := by
  rw [frames_eq_cons hi, Multiset.cons_inj_right] at hF
  subst hF
  simp only [Multiset.mem_coe, List.mem_append]
  refine ⟨fun g hg => Or.inr (Or.inl hg), fun j st hne hj g hg => ?_⟩
  rcases Nat.lt_or_gt_of_ne hne with hlt | hgt
  · have hmem : st ∈ c.threads.take i :=
      List.mem_of_getElem? (i := j) (by rw [List.getElem?_take_of_lt hlt, hj])
    exact Or.inl (List.mem_flatten.mpr ⟨st, hmem, hg⟩)
  · have hmem : st ∈ c.threads.drop (i + 1) :=
      List.mem_of_getElem? (i := j - (i + 1)) (by
        rw [List.getElem?_drop, Nat.add_sub_cancel' hgt, hj])
    exact Or.inr (Or.inr (List.mem_flatten.mpr ⟨st, hmem, hg⟩))

/-- **Stack invariant rule.** A step has to relate the new frames among each other, the last of
them (or nothing, at a return) to the frame below, and to leave all other relations. -/
theorem ReachesVia.stack_invariant {ok : Config σ φ → ℕ → χ → Prop} {c₀ c : Config σ φ}
    {A : σ → Option φ → φ → Prop} (h : M.ReachesVia ok c₀ c)
    (h₀ : ∀ st ∈ c₀.threads, Linked (A c₀.shared) none st)
    (hstep : ∀ c c' i x f (fs : List φ) R, M.Reaches c₀ c → M.Reaches c₀ c' → ok c i x →
      c.frames = f ::ₘ R → c'.frames = ↑fs + R →
      M.exec i c.shared f x = some (c'.shared, fs) → A c.shared none f →
      Linked (A c'.shared) none fs ∧
        (∀ g ∈ R, A c.shared (some f) g → A c'.shared fs.getLast? g) ∧
        ∀ o, ∀ g ∈ R, A c.shared o g → A c'.shared o g) :
    ∀ st ∈ c.threads, Linked (A c.shared) none st := by
  refine ReachesVia.invariant (I := fun c => ∀ st ∈ c.threads, Linked (A c.shared) none st) h h₀ ?_
  intro c c' i x hc hok hs hI st hst
  obtain ⟨f, k, fs, R, hi, hex, hthreads, hF, hF'⟩ := step_cases hs
  obtain ⟨hf, hk⟩ := hI _ (List.mem_of_getElem? hi)
  obtain ⟨hown, hbelow, hstable⟩ :=
    hstep c c' i x f fs R hc (hc.step trivial hs) hok hF hF' hex hf
  obtain ⟨hkR, hother⟩ := mem_rest hi hF
  obtain ⟨j, hj⟩ := List.getElem?_of_mem hst
  rw [hthreads] at hj
  rcases threads_set_cases hj with ⟨rfl, rfl⟩ | ⟨hne, hj⟩
  · -- the thread that takes the step: only the topmost of the old frames sees a change
    refine linked_append.mpr ⟨hown, ?_⟩
    rw [Option.or_none]
    cases k with
    | nil => trivial
    | cons g k =>
      obtain ⟨hg, hk⟩ := hk
      exact ⟨hbelow g (hkR g List.mem_cons_self) hg,
        hk.imp fun o g' hg' => hstable o g' (hkR g' (List.mem_cons_of_mem g hg'))⟩
  · exact (hI st (List.mem_of_getElem? hj)).imp fun o g hg => hstable o g (hother j st hne hj g hg)

end Machine

end MiniAsync.Interleave
