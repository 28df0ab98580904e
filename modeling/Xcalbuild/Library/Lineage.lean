/-
**Runs over a growing forest of processes.**

A process takes its steps alone: a step replaces it by its successors, which are itself, its
children, or nothing. A successor is an heir, which carries the history of the process on, or is
fresh, and starts a history of its own. In a run any process of the forest may take the next step.

* `Node`: a process with its lineage, the steps that led to it since it was fresh;
* `Run`: the steps of a run, in order, between two forests;
* `Run.snoc` and `Run.steps`: a run goes on with a step, and consists of steps;
* `Run.agree`: two properties of steps hold throughout the same runs if an invariant of nodes makes
  them agree on a step, and is kept by every step that has the first of them;
* `Run.simulate`: a run of processes with more detail is a run of their images under an abstraction,
  if each of its steps is a step of the image or changes nothing that the image shows.
-/
import Mathlib.Data.List.Basic

namespace Xcalbuild.Library

/-- A process after a step, or a child of it. -/
inductive Successor (σ : Type) where
  | heir (state : σ)
  | fresh (state : σ)

/-- A process, with the steps that led to it since it was fresh: the last one first, each with the
state in which it was taken. -/
structure Node (σ α : Type) where
  state : σ
  lineage : List (σ × α)

/-- A step, by the process as it was before it. -/
structure Taken (σ α ω : Type) where
  node : Node σ α
  action : α
  output : ω

section Run

variable {σ α ω : Type}

def Successor.node (lineage : List (σ × α)) : Successor σ → Node σ α
  | .heir state => ⟨state, lineage⟩
  | .fresh state => ⟨state, []⟩

/-- The lineage of the heirs of a process after an action. -/
def Node.past (node : Node σ α) (action : α) : List (σ × α) := (node.state, action) :: node.lineage

/-- **A run between two forests**, with the steps taken in it. -/
inductive Run (step : σ → α → Option (List (Successor σ) × ω)) :
    List (Node σ α) → List (Taken σ α ω) → List (Node σ α) → Prop
  | done (forest : List (Node σ α)) : Run step forest [] forest
  | take (before after : List (Node σ α)) (node : Node σ α) (action : α) {output : ω}
      {successors : List (Successor σ)} {taken : List (Taken σ α ω)} {last : List (Node σ α)} :
      step node.state action = some (successors, output) →
      Run step (before ++ (successors.map (Successor.node (node.past action)) ++ after)) taken last →
      Run step (before ++ node :: after) (⟨node, action, output⟩ :: taken) last

variable {step : σ → α → Option (List (Successor σ) × ω)} {forest last : List (Node σ α)}
  {taken : List (Taken σ α ω)}

/-- **Two properties hold throughout the same runs.** -/
theorem Run.agree {holds meets : Taken σ α ω → Prop} (keeps : Node σ α → Prop)
    (same : ∀ node action successors output, keeps node →
      step node.state action = some (successors, output) →
      (holds ⟨node, action, output⟩ ↔ meets ⟨node, action, output⟩))
    (kept : ∀ node action successors output, keeps node →
      step node.state action = some (successors, output) → holds ⟨node, action, output⟩ →
      ∀ successor ∈ successors, keeps (successor.node (node.past action)))
    (run : Run step forest taken last) (start : ∀ node ∈ forest, keeps node) :
    (∀ t ∈ taken, holds t) ↔ ∀ t ∈ taken, meets t := by
  induction run with
  | done => simp
  | take before after node action stepped _ ih =>
    have here := start node (List.mem_append_right _ List.mem_cons_self)
    have agree := same node action _ _ here stepped
    rw [List.forall_mem_cons, List.forall_mem_cons, ← agree]
    refine and_congr_right fun good => ih fun other member => ?_
    rw [List.mem_append, List.mem_append] at member
    rcases member with front | new | back
    · exact start other (List.mem_append_left _ front)
    · obtain ⟨successor, inside, rfl⟩ := List.mem_map.mp new
      exact kept node action _ _ here stepped good successor inside
    · exact start other (List.mem_append_right _ (List.mem_cons_of_mem _ back))

/-- A run that goes on with one more step. -/
theorem Run.snoc {before after : List (Node σ α)} {node : Node σ α} {action : α} {output : ω}
    {successors : List (Successor σ)} (run : Run step forest taken (before ++ node :: after))
    (stepped : step node.state action = some (successors, output)) :
    Run step forest (taken ++ [⟨node, action, output⟩])
      (before ++ (successors.map (Successor.node (node.past action)) ++ after)) := by
  generalize reached : before ++ node :: after = last at run
  induction run with
  | done =>
    subst reached
    exact .take before after node action stepped (.done _)
  | take before' after' node' action' stepped' _ ih =>
    exact .take before' after' node' action' stepped' (ih reached)

/-- The steps of a run are steps. -/
theorem Run.steps (run : Run step forest taken last) {t : Taken σ α ω} (member : t ∈ taken) :
    ∃ successors, step t.node.state t.action = some (successors, t.output) := by
  induction run with
  | done => cases member
  | take before after node action stepped _ ih =>
    rcases List.mem_cons.mp member with rfl | member
    · exact ⟨_, stepped⟩
    · exact ih member

end Run

/-! ### Abstraction -/

section Abstraction

variable {σ τ α β ω π : Type} {step : σ → α → Option (List (Successor σ) × ω)}
  {step' : τ → β → Option (List (Successor τ) × π)}

def Successor.state : Successor σ → σ
  | .heir state => state
  | .fresh state => state

def Successor.map (f : σ → τ) : Successor σ → Successor τ
  | .heir state => .heir (f state)
  | .fresh state => .fresh (f state)

/-- The image of a process: of its lineage the actions that the image shows. -/
def Node.map (f : σ → τ) (g : α → Option β) (node : Node σ α) : Node τ β where
  state := f node.state
  lineage := node.lineage.filterMap fun entry => (g entry.2).map fun action => (f entry.1, action)

/-- The image of a step, if there is one. -/
def Taken.map (f : σ → τ) (g : α → Option β) (h : ω → π) (taken : Taken σ α ω) :
    Option (Taken τ β π) :=
  (g taken.action).map fun action => ⟨taken.node.map f g, action, h taken.output⟩

/-- **A step as its image has it**: a step of the image, or nothing that it shows. -/
def Matches (step' : τ → β → Option (List (Successor τ) × π)) (f : σ → τ) (g : α → Option β)
    (h : ω → π) (state : σ) (action : α) (successors : List (Successor σ)) (output : ω) : Prop :=
  match g action with
  | some action' => step' (f state) action' = some (successors.map (Successor.map f), h output)
  | none => ∃ state', successors = [.heir state'] ∧ f state' = f state

theorem map_node_shown {f : σ → τ} {g : α → Option β} {node : Node σ α} {action : α} {action' : β}
    (shown : g action = some action') (successor : Successor σ) :
    (successor.node (node.past action)).map f g =
      (successor.map f).node ((node.map f g).past action') := by
  cases successor with
  | heir state =>
    unfold Successor.node Node.map Node.past Successor.map
    rw [List.filterMap_cons_some (b := (f node.state, action')) (by rw [shown]; rfl)]
  | fresh state => rfl

theorem map_node_hidden {f : σ → τ} {g : α → Option β} {node : Node σ α} {action : α} {state' : σ}
    (hidden : g action = none) (same : f state' = f node.state) :
    ((Successor.heir state').node (node.past action)).map f g = node.map f g := by
  unfold Successor.node Node.map Node.past
  rw [List.filterMap_cons_none (by rw [hidden]; rfl), same]

/-- **A run is a run of the images**, with an invariant that every step keeps. -/
theorem Run.simulate {f : σ → τ} {g : α → Option β} {h : ω → π} (keeps : σ → Prop)
    (allowed outcome : Taken σ α ω → Prop)
    (kept : ∀ node action successors output, keeps node.state → allowed ⟨node, action, output⟩ →
      step node.state action = some (successors, output) →
        Matches step' f g h node.state action successors output ∧
        (∀ successor ∈ successors, keeps successor.state) ∧ outcome ⟨node, action, output⟩)
    {forest last : List (Node σ α)} {taken : List (Taken σ α ω)} (run : Run step forest taken last)
    (start : ∀ node ∈ forest, keeps node.state) (all : ∀ t ∈ taken, allowed t) :
    (∀ node ∈ last, keeps node.state) ∧ (∀ t ∈ taken, outcome t) ∧
      Run step' (forest.map (Node.map f g)) (taken.filterMap (Taken.map f g h))
        (last.map (Node.map f g)) := by
  induction run with
  | done => exact ⟨start, by simp, .done _⟩
  | @take before after node action output successors taken last stepped _ ih =>
    obtain ⟨here, later⟩ := List.forall_mem_cons.mp all
    have good := start node (List.mem_append_right _ List.mem_cons_self)
    obtain ⟨matched, succeeds, shown⟩ := kept node action successors output good here stepped
    obtain ⟨final, showing, image⟩ := ih (fun other member => by
      rcases List.mem_append.mp member with front | member
      · exact start other (List.mem_append_left _ front)
      · rcases List.mem_append.mp member with new | back
        · obtain ⟨successor, inside, rfl⟩ := List.mem_map.mp new
          have kept := succeeds successor inside
          cases successor <;> exact kept
        · exact start other (List.mem_append_right _ (List.mem_cons_of_mem _ back))) later
    refine ⟨final, List.forall_mem_cons.mpr ⟨shown, showing⟩, ?_⟩
    rw [List.map_append, List.map_cons]
    unfold Matches at matched
    cases shows : g action with
    | some action' =>
      rw [shows] at matched
      rw [List.filterMap_cons_some (b := ⟨node.map f g, action', h output⟩)
        (by rw [Taken.map, shows]; rfl)]
      refine .take _ _ _ _ matched ?_
      rw [List.map_append, List.map_append, List.map_map] at image
      rw [List.map_map]
      have nodes : successors.map (Node.map f g ∘ Successor.node (node.past action)) =
          successors.map (Successor.node ((node.map f g).past action') ∘ Successor.map f) :=
        List.map_congr_left fun successor _ => map_node_shown shows successor
      rwa [nodes] at image
    | none =>
      rw [shows] at matched
      obtain ⟨state', rfl, same⟩ := matched
      rw [List.filterMap_cons_none (by rw [Taken.map, shows]; rfl)]
      rw [List.map_append, List.map_append, List.map_singleton, List.map_singleton,
        map_node_hidden shows same] at image
      exact image

end Abstraction

end Xcalbuild.Library
