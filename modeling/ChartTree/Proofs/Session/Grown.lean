import ChartTree.Proofs.Session.Sound

/-!
# Grown charts

A chart has grown if it stands in the store of a session that makes nodes, calls their methods,
copies them and changes the settings, and that hands out no node that is not there. It is built and
formed, and so is everything in it.
-/

namespace ChartTree

/-- A node in a store after checked steps that are given nodes of the store only. -/
def Node.Grown (n : Node) : Prop :=
  ∃ (settings : Settings) (steps : List Step) (id : Nat), (∀ step ∈ steps, step.Checked) ∧
    (Session.start settings).Proper steps ∧
      ((Session.start settings).run steps).store.node? id = some n

/-- A chart that stands in such a store. -/
def Chart.Grown (c : Chart) : Prop :=
  ∃ (settings : Settings) (steps : List Step) (id : Nat), (∀ step ∈ steps, step.Checked) ∧
    (Session.start settings).Proper steps ∧
      ((Session.start settings).run steps).store.chart? id = some c

namespace Node.Grown

variable {n : Node}

theorem regular (h : n.Grown) : n.Regular := by
  obtain ⟨settings, steps, id, checked, _, found⟩ := h
  exact (Session.run_regular Store.empty_regular checked id n found).regular

theorem shaped (h : n.Grown) : n.Shaped := by
  obtain ⟨settings, steps, id, _, proper, found⟩ := h
  exact ((Session.run_sound Store.empty_sound proper).1 id n found).1

theorem fresh (kind : Kind) (settings : Settings) : (Node.fresh kind settings.schemaUrl).Grown := by
  let args : Arguments := ⟨[⟨.object 0, .string kind.name⟩], []⟩
  let construction : Construction := .ofKind ⟨some (.object 0), .string kind.name⟩
  have given : args.Distinct := List.nodup_nil
  have fits : Construction.bind? .ofKind args = some construction := rfl
  refine ⟨settings, [.make construction], 0, ?_, ⟨.make (Store.none_stand _), trivial⟩, ?_⟩
  · exact List.forall_mem_cons.2 ⟨.make given fits, fun step hstep => by cases hstep⟩
  · cases kind <;> rfl

end Node.Grown

namespace Chart.Grown

variable {c : Chart}

theorem built (h : c.Grown) : c.Built := by
  obtain ⟨settings, steps, id, checked, _, found⟩ := h
  exact ⟨settings, steps, id, checked, found⟩

theorem formed (h : c.Grown) : c.Formed := by
  obtain ⟨settings, steps, id, _, proper, found⟩ := h
  exact (Session.run_sound Store.empty_sound proper).1.unfold_formed found

theorem all (h : c.Grown) : c.All Node.Grown := by
  obtain ⟨settings, steps, id, checked, proper, found⟩ := h
  exact (Session.run_regular Store.empty_regular checked).unfold_all_of
    (fun id n hn => ⟨settings, steps, id, checked, proper, hn⟩) found

end Chart.Grown

end ChartTree
