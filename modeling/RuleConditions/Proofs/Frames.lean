import RuleConditions.Proofs.Evaluation
import RuleConditions.Session

/-!
# Frames

Every slice that an evaluation enters it also leaves, whether the evaluation inside succeeds or
fails, and in between the depth is the number of slices under evaluation.  `CountsFrames` says this
of a row of events.  Two rows make one (`CountsFrames.append`), and a row one level deeper is framed
by the events that enter and leave a slice (`CountsFrames.frame`); an evaluation makes only such
rows (`counts_evaluate`).

Hence a session carries nothing from one evaluation to the next: every request is served as if it
were the first (`serve_start`).
-/

namespace RuleConditions

open Evaluation

variable {α β : Type} {limit depth : Nat} {event : Event}
  {active : Int} {before after xs ys inside : List Event}

/-! ### Counting frames -/

def Event.isEntered : Event → Bool
  | .entered .. => true
  | .split _ | .exited _ => false

def Event.isExited : Event → Bool
  | .exited _ => true
  | .entered .. | .split _ => false

/-- How many slices the events enter and do not leave. -/
def activeFrames (events : List Event) : Int :=
  (events.countP Event.isEntered : Int) - events.countP Event.isExited

/-- Whether the depth that an event reports is right where that many slices are under evaluation
before it.  A slice that is entered is counted already, and one that is left is counted still. -/
def Event.Reports (active : Int) : Event → Prop
  | .entered depth _ => depth = active + 1
  | .split _ => True
  | .exited depth => depth = active

/-- Events that start with some slices under evaluation and keep count: each reports the right
depth, and at no time are there too many slices under evaluation, or fewer than none. -/
structure CountsFrames (limit : Nat) (active : Int) (events : List Event) : Prop where
  reported : ∀ before event after, events = before ++ event :: after →
    event.Reports (active + activeFrames before)
  bounded : ∀ before after, events = before ++ after →
    0 ≤ active + activeFrames before ∧ active + activeFrames before ≤ limit

@[simp]
theorem activeFrames_nil : activeFrames [] = 0 := rfl

@[simp]
theorem activeFrames_append (xs ys : List Event) :
    activeFrames (xs ++ ys) = activeFrames xs + activeFrames ys := by
  simp only [activeFrames, List.countP_append]
  omega

theorem countsFrames_nil (hmin : 0 ≤ active) (hmax : active ≤ limit) :
    CountsFrames limit active [] where
  reported := by simp
  bounded := by
    intro before after h
    obtain ⟨rfl, -⟩ := List.nil_eq_append_iff.mp h
    rw [activeFrames_nil, Int.add_zero]
    exact ⟨hmin, hmax⟩

theorem countsFrames_singleton (hreports : event.Reports active) (hmin : 0 ≤ active)
    (hmax : active ≤ limit) (hmin' : 0 ≤ active + activeFrames [event])
    (hmax' : active + activeFrames [event] ≤ limit) : CountsFrames limit active [event] where
  reported := by
    intro before other after h
    cases before with
    | nil =>
      obtain ⟨rfl, -⟩ := List.cons.inj h
      rwa [activeFrames_nil, Int.add_zero]
    | cons first before => exact absurd h (by simp)
  bounded := by
    intro before after h
    obtain ⟨rfl, -⟩ | ⟨rfl, -⟩ := List.singleton_eq_append_iff.mp h
    · rw [activeFrames_nil, Int.add_zero]
      exact ⟨hmin, hmax⟩
    · exact ⟨hmin', hmax'⟩

/-- **Two rows of events**, the second of which starts where the first ends. -/
theorem CountsFrames.append (hx : CountsFrames limit active xs)
    (hy : CountsFrames limit (active + activeFrames xs) ys) :
    CountsFrames limit active (xs ++ ys) where
  reported := by
    intro before event after h
    obtain ⟨front, rfl, hys⟩ | ⟨rest, rfl, hrest⟩ := List.append_eq_append_iff.mp h
    · have hevent := hy.reported front event after hys
      rwa [activeFrames_append, ← Int.add_assoc]
    · -- the event may be the first of the second row
      cases rest with
      | nil =>
        have hevent := hy.reported [] event after hrest.symm
        rwa [activeFrames_append, activeFrames_nil, Int.add_zero, Int.add_zero] at hevent
      | cons other rest =>
        obtain ⟨rfl, -⟩ := List.cons.inj hrest
        exact hx.reported before event rest rfl
  bounded := by
    intro before after h
    obtain ⟨front, rfl, hys⟩ | ⟨rest, hxs, -⟩ := List.append_eq_append_iff.mp h
    · have hfront := hy.bounded front after hys
      rwa [activeFrames_append, ← Int.add_assoc]
    · exact hx.bounded before rest hxs

/-- **A frame** around events one level deeper. -/
theorem CountsFrames.frame (h : CountsFrames limit ((depth + 1 : Nat) : Int) inside)
    (hbalanced : activeFrames inside = 0) (hlimit : depth + 1 ≤ limit) (slice : List Token) :
    CountsFrames limit depth (.entered (depth + 1) slice :: inside ++ [.exited (depth + 1)]) := by
  have henter : activeFrames [.entered (depth + 1) slice] = 1 := rfl
  have hexit : activeFrames [.exited (depth + 1)] = -1 := rfl
  have hfirst : CountsFrames limit depth [.entered (depth + 1) slice] := by
    apply countsFrames_singleton
    · rw [Event.Reports]
      omega
    all_goals omega
  have hlast : CountsFrames limit ((depth + 1 : Nat) : Int) [.exited (depth + 1)] := by
    apply countsFrames_singleton
    · rw [Event.Reports]
    all_goals omega
  have hinside :
      CountsFrames limit ((depth + 1 : Nat) : Int) (inside ++ [.exited (depth + 1)]) := by
    apply h.append
    rwa [hbalanced, Int.add_zero]
  have hdepth : (depth : Int) + activeFrames [.entered (depth + 1) slice] = (depth + 1 : Nat) := by
    omega
  rw [← hdepth] at hinside
  exact hfirst.append hinside

/-! ### Evaluations -/

namespace Evaluation

/-- An evaluation that leaves every slice it enters and keeps count on the way, from every depth
within the limit. -/
def Counts (limit : Nat) (e : Evaluation α) : Prop :=
  ∀ depth, depth ≤ limit →
    activeFrames (e depth).trace = 0 ∧ CountsFrames limit depth (e depth).trace

theorem counts_ofExcept (limit : Nat) (outcome : Except RuleError α) :
    Counts limit (ofExcept outcome) :=
  fun _ hdepth => ⟨rfl, countsFrames_nil (by omega) (by omega)⟩

theorem counts_note_split (limit : Nat) (split : Split) : Counts limit (note (.split split)) := by
  intro depth hdepth
  have hsplit : activeFrames [.split split] = 0 := rfl
  refine ⟨hsplit, countsFrames_singleton trivial ?_ ?_ ?_ ?_⟩ <;> omega

theorem counts_andThen {first : Evaluation α} {second : α → Evaluation β}
    (hrestores : Restores first) (h : Counts limit first) (h' : ∀ a, Counts limit (second a)) :
    Counts limit (andThen first second) := by
  intro depth hdepth
  obtain ⟨hbalanced, hcounts⟩ := h depth hdepth
  cases houtcome : (first depth).outcome with
  | error e =>
    rw [andThen_of_error houtcome]
    exact ⟨hbalanced, hcounts⟩
  | ok a =>
    obtain ⟨hbalanced', hcounts'⟩ := h' a depth hdepth
    rw [andThen_of_ok houtcome, hrestores depth]
    refine ⟨?_, hcounts.append ?_⟩
    · rw [activeFrames_append, hbalanced, hbalanced', Int.add_zero]
    · rwa [hbalanced, Int.add_zero]

/-- A slice that is not entered because of the limit is not left either. -/
theorem counts_nested {inside : Evaluation α} (hrestores : Restores inside)
    (h : Counts limit inside) (slice : List Token) : Counts limit (nested limit slice inside) := by
  intro depth hdepth
  unfold nested
  split
  · exact ⟨rfl, countsFrames_nil (by omega) (by omega)⟩
  · have hnext : depth + 1 ≤ limit := by omega
    obtain ⟨hbalanced, hcounts⟩ := h (depth + 1) hnext
    simp only [hrestores (depth + 1)]
    refine ⟨?_, hcounts.frame hbalanced hnext slice⟩
    have henter : activeFrames [.entered (depth + 1) slice] = 1 := rfl
    have hexit : activeFrames [.exited (depth + 1)] = -1 := rfl
    rw [← List.singleton_append, activeFrames_append, activeFrames_append, hbalanced, henter, hexit]
    rfl

/-- What keeps count goes through every rule, together with the depth. -/
theorem congruence_counts (limit : Nat) :
    Congruence fun _ first _ => Restores first ∧ Counts limit first := by
  refine ⟨fun outcome => ?_, fun split => ?_, fun hfirst hsecond => ?_⟩
  · exact ⟨restores_ofExcept outcome, counts_ofExcept limit outcome⟩
  · exact ⟨restores_note _, counts_note_split limit split⟩
  · obtain ⟨hrestores, hcounts⟩ := hfirst
    exact ⟨restores_andThen hrestores fun a => (hsecond a).1,
      counts_andThen hrestores hcounts fun a => (hsecond a).2⟩

end Evaluation

/-- **An evaluation keeps count** of the slices under evaluation, and leaves all it enters. -/
theorem counts_evaluate (scope : Scope) (ts : List Token) :
    Counts scope.depthLimit (evaluate scope ts) := by
  induction ts using Shape.induction scope.precedence with
  | step ts ih =>
    have hcongruence := congruence_counts scope.depthLimit
    obtain ⟨hrestores, hcounts⟩ :=
      Shape.run_of_congruence hcongruence scope.bindings (evaluate scope) (evaluate scope)
        fun part hpart => ⟨restores_evaluate scope part, ih part hpart⟩
    rw [evaluate_eq]
    exact counts_nested hrestores hcounts ts

/-! ### Sessions -/

namespace Session

/-- **A step leaves the session as it found it**, whether the evaluation succeeds or fails. -/
theorem step_snd (session : Session) (ts : List Token) : (session.step ts).2 = session := by
  have hdepth := depth_evaluate session.scope ts session.depth
  rw [step]
  simp only [hdepth]

@[simp]
theorem setPrecedence_setPrecedence (session : Session) (p q : Precedence) :
    (session.setPrecedence p).setPrecedence q = session.setPrecedence q := rfl

/-- Requests are served one by one, each as if it were the first. -/
theorem serve_eq_map (session : Session) (requests : List Request) :
    session.serve requests = requests.map fun request =>
      ((session.setPrecedence request.precedence).step request.tokens).1 := by
  induction requests generalizing session with
  | nil => rfl
  | cons request requests ih =>
    have hnext := step_snd (session.setPrecedence request.precedence) request.tokens
    rw [serve, hnext, ih, List.map_cons]
    simp only [setPrecedence_setPrecedence]

/-- **A session has no history**: each of its runs is the run of a new session with the same
precedence.  Every step leaves the session, the depth included, as it found it, and during each run
the depth is the number of slices under evaluation and stays within the limit. -/
theorem serve_start (bindings : Bindings) (p : Precedence) (maxDepth : Nat)
    (requests : List Request) :
    ((start ⟨bindings, p, maxDepth⟩).serve requests = requests.map fun request =>
      ((start ⟨bindings, request.precedence, maxDepth⟩).step request.tokens).1) ∧
    (∀ (session : Session) (ts : List Token), (session.step ts).2 = session) ∧
    ∀ run ∈ (start ⟨bindings, p, maxDepth⟩).serve requests,
      run.depth = 0 ∧ activeFrames run.trace = 0 ∧
        CountsFrames (min maxDepth 256) 0 run.trace := by
  have hserve : (start ⟨bindings, p, maxDepth⟩).serve requests = requests.map fun request =>
      ((start ⟨bindings, request.precedence, maxDepth⟩).step request.tokens).1 :=
    serve_eq_map (start ⟨bindings, p, maxDepth⟩) requests
  refine ⟨hserve, step_snd, fun run hrun => ?_⟩
  rw [hserve, List.mem_map] at hrun
  obtain ⟨request, -, rfl⟩ := hrun
  have hdepth := depth_evaluate ⟨bindings, request.precedence, maxDepth⟩ request.tokens 0
  have hcounts := counts_evaluate ⟨bindings, request.precedence, maxDepth⟩ request.tokens 0
  exact ⟨hdepth, hcounts (Nat.zero_le _)⟩

end Session

end RuleConditions
