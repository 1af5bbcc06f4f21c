import CrossMesh.Proofs.Relocation.Effect

/-!
# Reachable tables of groups

A table is reachable if it was filled, from the empty table on, by requests, by planning transfers and by relocations
of any worker, successful or not.  Every reachable table is numbered (`Reachable.numbered`).
-/

namespace CrossMesh

namespace Groups

/-- A call that may fill a table of groups. -/
inductive Action
  | request (ranks : List Rank) (kind : GroupKind)
  | plan (src dst : Mesh) (rank : Option Rank) (eagerReverse : Bool)
  | relocate (program : Program) (rank : Rank) (config : Config) (m : Relocation)

/-- The table after a call, whatever the call answers. -/
def act (t : Groups) : Action → Groups
  | .request ranks kind => (t.request ranks kind).2
  | .plan src dst rank eagerReverse => (({ groups := t } : Worker).plan src dst rank eagerReverse).groups
  | .relocate program rank config m => (({ program, groups := t } : Worker).relocate rank config m).2.groups

def Reachable (t : Groups) : Prop := ∃ actions : List Action, actions.foldl act {} = t

theorem Numbered.act {t : Groups} (h : t.Numbered) (a : Action) : (t.act a).Numbered := by
  cases a with
  | request ranks kind => exact h.request ranks kind
  | plan src dst rank eagerReverse =>
    show (Worker.plan { groups := t } src dst rank eagerReverse).groups.Numbered
    rw [Worker.groups_plan]
    exact h.requestAll _
  | relocate program rank config m =>
    obtain ⟨members, hgroups⟩ := Worker.exists_relocate_groups { program, groups := t } rank config m
    show (Worker.relocate { program, groups := t } rank config m).2.groups.Numbered
    rw [hgroups]
    exact h.requestAll members

theorem Reachable.numbered {t : Groups} (h : t.Reachable) : t.Numbered := by
  obtain ⟨actions, rfl⟩ := h
  suffices ∀ s : Groups, s.Numbered → (actions.foldl act s).Numbered from this {} numbered_empty
  induction actions with
  | nil => exact fun s hs => hs
  | cons a actions ih => exact fun s hs => ih (s.act a) (hs.act a)

end Groups

end CrossMesh
