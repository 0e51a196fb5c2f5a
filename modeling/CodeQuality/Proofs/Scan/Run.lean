import CodeQuality.Proofs.Scan.CodePositions

/-!
# The run of a scan

A run lists the offsets that a search stands at, with its states there. Every step of a scan leads
forward within the text, so every search has a finite run with the same answer, and what its
machine keeps holds all along the run.
-/

namespace CodeQuality.Scan

section Runs

variable {σ : Type} {step : σ → UInt8 → Step σ} {bytes : List UInt8} {style : CommentStyle}

/-- Behind the last byte nothing is found. -/
theorem search_of_length_le {offset : Nat} (h : bytes.length ≤ offset) (state : σ) :
    search step bytes offset style state = none := by
  rw [search_eq_readCode, codePositions_of_length_le h, readCode]

/-- A search that stands at a literal or comment goes on behind it. -/
theorem search_of_lt_triviaEnd {offset : Nat} (hlt : offset < bytes.length)
    (h : offset < triviaEnd bytes offset style) (state : σ) :
    search step bytes offset style state =
      search step bytes (triviaEnd bytes offset style) style state := by
  rw [search_eq_readCode, search_eq_readCode, codePositions_of_lt_triviaEnd hlt h]

/-- A search that stands at a byte of code asks its machine. -/
theorem search_of_triviaEnd_eq {offset : Nat} {b : UInt8} (hb : bytes[offset]? = some b)
    (h : triviaEnd bytes offset style = offset) (state : σ) :
    search step bytes offset style state =
      match step state b with
      | .onward next => search step bytes (offset + 1) style next
      | .found => some offset
      | .absent => none := by
  rw [search_eq_readCode, codePositions_of_triviaEnd_eq hb h, readCode]
  cases step state b <;> simp only [search_eq_readCode]

/-- The run of a search from an offset and a state: the offsets it stands at, with its states
there, and its answer. -/
inductive Runs (step : σ → UInt8 → Step σ) (bytes : List UInt8) (style : CommentStyle) :
    Nat → σ → List (Nat × σ) → Option Nat → Prop
  | ended {offset state} (hend : bytes.length ≤ offset) : Runs step bytes style offset state [] none
  | jumped {offset state trail answer} (hlt : offset < bytes.length)
      (hopen : offset < triviaEnd bytes offset style)
      (rest : Runs step bytes style (triviaEnd bytes offset style) state trail answer) :
      Runs step bytes style offset state ((offset, state) :: trail) answer
  | onward {offset state b next trail answer} (hb : bytes[offset]? = some b)
      (hcode : triviaEnd bytes offset style = offset) (hstep : step state b = .onward next)
      (rest : Runs step bytes style (offset + 1) next trail answer) :
      Runs step bytes style offset state ((offset, state) :: trail) answer
  | found {offset state b} (hb : bytes[offset]? = some b)
      (hcode : triviaEnd bytes offset style = offset) (hstep : step state b = .found) :
      Runs step bytes style offset state [(offset, state)] (some offset)
  | absent {offset state b} (hb : bytes[offset]? = some b)
      (hcode : triviaEnd bytes offset style = offset) (hstep : step state b = .absent) :
      Runs step bytes style offset state [(offset, state)] none

/-- Every search has a run with its answer. -/
theorem exists_runs (step : σ → UInt8 → Step σ) (bytes : List UInt8) (style : CommentStyle)
    (offset : Nat) (state : σ) :
    ∃ trail, Runs step bytes style offset state trail (search step bytes offset style state) := by
  induction offset using scan_induction bytes style generalizing state with
  | ended offset hend =>
    rw [search_of_length_le hend]
    exact ⟨[], .ended hend⟩
  | jumped offset hlt hopen ih =>
    obtain ⟨trail, htrail⟩ := ih state
    rw [search_of_lt_triviaEnd hlt hopen]
    exact ⟨_, .jumped hlt hopen htrail⟩
  | onward offset b hb hcode ih =>
    rw [search_of_triviaEnd_eq hb hcode]
    cases hstep : step state b with
    | onward next =>
      obtain ⟨trail, htrail⟩ := ih next
      exact ⟨_, .onward hb hcode hstep htrail⟩
    | found => exact ⟨_, .found hb hcode hstep⟩
    | absent => exact ⟨_, .absent hb hcode hstep⟩

namespace Runs

variable {offset : Nat} {state : σ} {trail : List (Nat × σ)} {answer : Option Nat}

/-- A run stands at bytes of the text only, from its first offset on. -/
theorem mem_bounds (h : Runs step bytes style offset state trail answer) :
    ∀ visit ∈ trail, offset ≤ visit.1 ∧ visit.1 < bytes.length := by
  induction h with
  | ended => simp
  | jumped hlt hopen rest ih =>
    intro visit hvisit
    rcases List.mem_cons.mp hvisit with rfl | hlater
    · exact ⟨Nat.le_refl _, hlt⟩
    · exact ⟨Nat.le_trans (Nat.le_of_lt hopen) (ih visit hlater).1, (ih visit hlater).2⟩
  | onward hb hcode hstep rest ih =>
    intro visit hvisit
    rcases List.mem_cons.mp hvisit with rfl | hlater
    · exact ⟨Nat.le_refl _, (List.getElem?_eq_some_iff.mp hb).1⟩
    · exact ⟨Nat.le_of_succ_le (ih visit hlater).1, (ih visit hlater).2⟩
  | found hb => simpa using (List.getElem?_eq_some_iff.mp hb).1
  | absent hb => simpa using (List.getElem?_eq_some_iff.mp hb).1

/-- A run moves forward with every step. -/
theorem pairwise_lt (h : Runs step bytes style offset state trail answer) :
    trail.Pairwise fun a b => a.1 < b.1 := by
  induction h with
  | ended => exact .nil
  | jumped hlt hopen rest ih =>
    exact .cons
      (fun visit hvisit => Nat.lt_of_lt_of_le hopen (rest.mem_bounds visit hvisit).1) ih
  | onward hb hcode hstep rest ih =>
    exact .cons (fun visit hvisit => (rest.mem_bounds visit hvisit).1) ih
  | found => exact List.pairwise_singleton ..
  | absent => exact List.pairwise_singleton ..

/-- What holds at first and is kept by the machine holds at every step of a run. -/
theorem mem_invariant {Holds : σ → Prop}
    (hkeep : ∀ state b next, Holds state → step state b = .onward next → Holds next)
    (h : Runs step bytes style offset state trail answer) (hfirst : Holds state) :
    ∀ visit ∈ trail, Holds visit.2 := by
  induction h with
  | ended => simp
  | jumped hlt hopen rest ih => exact List.forall_mem_cons.mpr ⟨hfirst, ih hfirst⟩
  | onward hb hcode hstep rest ih =>
    exact List.forall_mem_cons.mpr ⟨hfirst, ih (hkeep _ _ _ hfirst hstep)⟩
  | found => simpa using hfirst
  | absent => simpa using hfirst

end Runs

/-- A search comes to its answer: it moves forward with every step, stands at bytes of the text
only, and every state it is in is as it should be. -/
def Completes (step : σ → UInt8 → Step σ) (bytes : List UInt8) (style : CommentStyle)
    (start : Nat) (state : σ) (Holds : σ → Prop) (answer : Option Nat) : Prop :=
  ∃ trail, Runs step bytes style start state trail answer ∧
    trail.Pairwise (fun a b => a.1 < b.1) ∧
    ∀ visit ∈ trail, start ≤ visit.1 ∧ visit.1 < bytes.length ∧ Holds visit.2

/-- Every search comes to its answer. -/
theorem completes_search {Holds : σ → Prop}
    (hkeep : ∀ state b next, Holds state → step state b = .onward next → Holds next)
    (bytes : List UInt8) (style : CommentStyle) (start : Nat) {state : σ} (hfirst : Holds state) :
    Completes step bytes style start state Holds (search step bytes start style state) := by
  obtain ⟨trail, hruns⟩ := exists_runs step bytes style start state
  refine ⟨trail, hruns, hruns.pairwise_lt, ?_⟩
  intro visit hvisit
  obtain ⟨hle, hlt⟩ := hruns.mem_bounds visit hvisit
  exact ⟨hle, hlt, hruns.mem_invariant hkeep hfirst visit hvisit⟩

end Runs

end CodeQuality.Scan
