import CrossMesh.Proofs.Mesh.Axes
import CrossMesh.Proofs.Mesh.Repeats
import Mathlib.Algebra.Group.Nat.Defs

/-!
# Building meshes

Building a mesh comes to one of five ends, told here by the index that each axis name was given last, the shape and the
ranks (`Verdict`): the checks are made one after the other, and a check is only reached if those before it have passed.
Hence a mesh is built exactly if the names number the axes one by one, there is a rank for each cell and no rank stands
twice, and the order in which the names are looked at has no influence on the mesh or on the kind of the error
(`assemble_of_tabulates`).  The generated names of a grid always number its axes, so that only the ranks can be at
fault (`grid_of_ranks`).
-/

namespace CrossMesh

theorem volume_eq_prod (shape : List Nat) : volume shape = shape.prod := List.prod_eq_foldl.symm

namespace Mesh

variable {index? : String → Option Nat} {names : Nat} {ids : List Rank} {shape : List Nat}
  {outcome : Except MeshError Mesh}

/-! ### The ends a build can come to -/

/-- The error names an index that lies outside the shape or that two names share. -/
inductive NamesConflict (index? : String → Option Nat) (shape : List Nat) : MeshError → Prop
  | outOfRange {name : String} {i : Nat} : index? name = some i → shape.length ≤ i →
      NamesConflict index? shape (.axisOutOfRange i shape)
  | taken {name other : String} {i : Nat} : name ≠ other → index? name = some i → index? other = some i →
      NamesConflict index? shape (.axisTaken i)

theorem NamesConflict.kind_eq {e : MeshError} (h : NamesConflict index? shape e) : e.kind = .invalidDimension := by
  cases h <;> rfl

theorem NamesConflict.conflicting {e : MeshError} (h : NamesConflict index? shape e) :
    Conflicting index? shape.length := by
  cases h with
  | outOfRange hi hout => exact .inl ⟨_, _, hi, hout⟩
  | taken hne hi hother => exact .inr ⟨_, _, _, hne, hi, hother⟩

/-- What building a mesh comes to when `names` names have an index, the one that `index?` tells. -/
inductive Verdict (index? : String → Option Nat) (names : Nat) (ids : List Rank) (shape : List Nat) :
    Except MeshError Mesh → Prop
  | conflict {e : MeshError} : NamesConflict index? shape e → Verdict index? names ids shape (.error e)
  | unmapped {i : Nat} : ¬Conflicting index? shape.length → i < shape.length → (∀ name, index? name ≠ some i) →
      Verdict index? names ids shape (.error (.axesUnmapped names shape.length))
  | wrongCount : NamesAxes index? shape.length → ids.length ≠ shape.prod →
      Verdict index? names ids shape (.error (.wrongCount ids.length shape))
  | repeatedRank {r : Rank} : NamesAxes index? shape.length → ids.length = shape.prod → FirstRepeat ids r →
      Verdict index? names ids shape (.error (.repeatedRank r))
  | built {mesh : Mesh} : NamesAxes index? shape.length → ids.length = shape.prod → ids.Nodup → mesh.ids = ids →
      mesh.shape = shape → (∀ i name, mesh.axes[i]? = some name ↔ index? name = some i) →
      Verdict index? names ids shape (.ok mesh)

theorem verdict_assemble {table : List (String × Nat)} (htable : Tabulates table index?) (ids : List Rank)
    (shape : List Nat) : Verdict index? table.length ids shape (assemble ids shape table) := by
  unfold assemble
  cases hfill : fillAxes shape (List.replicate shape.length none) table with
  | error e =>
    obtain ⟨name, i, hi, ⟨hout, rfl⟩ | ⟨⟨other, hne, hother⟩, rfl⟩⟩ := conflict_of_fillAxes htable hfill
    · exact .conflict (.outOfRange hi hout)
    · exact .conflict (.taken hne hi hother)
  | ok slots =>
    have hnot := not_conflicting_of_fillAxes htable hfill
    have hall := length_axes_eq_iff htable hfill
    dsimp only
    split
    · rename_i hlength
      have hnames : NamesAxes index? shape.length := namesAxes_iff.2 ⟨hnot, hall.1 hlength⟩
      split
      · rename_i hcount
        have hprod : ids.length = shape.prod := hcount.trans (volume_eq_prod shape)
        split
        · rename_i r hr
          exact .repeatedRank hnames hprod (firstRepeat?_eq_some_iff.1 hr)
        · rename_i hnone
          exact .built hnames hprod (nodup_of_firstRepeat?_eq_none hnone) rfl rfl fun i name =>
            getElem?_axes_of_fillAxes htable hfill hlength
      · rename_i hcount
        exact .wrongCount hnames (volume_eq_prod shape ▸ hcount)
    · rename_i hlength
      rw [hall] at hlength
      push Not at hlength
      obtain ⟨i, hi, hunnamed⟩ := hlength
      rw [length_axes_of_fillAxes hfill]
      exact .unmapped hnot hi hunnamed

namespace Verdict

/-! ### Each end has a condition of its own -/

theorem of_ok {mesh : Mesh} (h : Verdict index? names ids shape (.ok mesh)) :
    mesh.ids = ids ∧ mesh.shape = shape ∧ ∀ i name, mesh.axes[i]? = some name ↔ index? name = some i := by
  cases h with
  | built _ _ _ hids hshape haxes => exact ⟨hids, hshape, haxes⟩

theorem kind_eq_iff {e : MeshError} (h : Verdict index? names ids shape (.error e)) :
    e.kind = .invalidDimension ↔ Conflicting index? shape.length := by
  cases h with
  | conflict he => exact iff_of_true he.kind_eq he.conflicting
  | unmapped hnot => exact iff_of_false nofun hnot
  | wrongCount hnames => exact iff_of_false nofun hnames.not_conflicting
  | repeatedRank hnames => exact iff_of_false nofun hnames.not_conflicting

variable (h : Verdict index? names ids shape outcome)

include h

theorem of_conflicting (hconflict : Conflicting index? shape.length) :
    ∃ e, outcome = .error e ∧ e.kind = .invalidDimension := by
  cases outcome with
  | error e => exact ⟨e, rfl, h.kind_eq_iff.2 hconflict⟩
  | ok mesh =>
    cases h with
    | built hnames => exact absurd hconflict hnames.not_conflicting

theorem of_unnamed (hnot : ¬Conflicting index? shape.length) {i : Nat} (hi : i < shape.length)
    (hunnamed : ∀ name, index? name ≠ some i) : outcome = .error (.axesUnmapped names shape.length) := by
  have hnames : ¬NamesAxes index? shape.length := by
    intro hnames
    obtain ⟨name, hname⟩ := hnames.surjective i hi
    exact hunnamed name hname
  cases h with
  | conflict he => exact absurd he.conflicting hnot
  | unmapped => rfl
  | wrongCount h => exact absurd h hnames
  | repeatedRank h => exact absurd h hnames
  | built h => exact absurd h hnames

theorem of_namesAxes (hnames : NamesAxes index? shape.length) :
    (ids.length ≠ shape.prod ∧ outcome = .error (.wrongCount ids.length shape)) ∨
      (ids.length = shape.prod ∧ ∃ r, FirstRepeat ids r ∧ outcome = .error (.repeatedRank r)) ∨
      (ids.length = shape.prod ∧ ids.Nodup ∧ ∃ mesh, outcome = .ok mesh) := by
  cases h with
  | conflict he => exact absurd he.conflicting hnames.not_conflicting
  | unmapped _ hi hunnamed =>
    obtain ⟨name, hname⟩ := hnames.surjective _ hi
    exact absurd hname (hunnamed name)
  | wrongCount _ hcount => exact .inl ⟨hcount, rfl⟩
  | repeatedRank _ hcount hr => exact .inr (.inl ⟨hcount, _, hr, rfl⟩)
  | built _ hcount hnodup => exact .inr (.inr ⟨hcount, hnodup, _, rfl⟩)

theorem exists_ok_iff :
    (∃ mesh, outcome = .ok mesh) ↔ NamesAxes index? shape.length ∧ ids.length = shape.prod ∧ ids.Nodup := by
  constructor
  · rintro ⟨mesh, rfl⟩
    cases h with
    | built hnames hcount hnodup => exact ⟨hnames, hcount, hnodup⟩
  · rintro ⟨hnames, hcount, hnodup⟩
    rcases h.of_namesAxes hnames with ⟨hne, -⟩ | ⟨-, r, hr, -⟩ | ⟨-, -, hok⟩
    · exact absurd hcount hne
    · exact absurd hnodup hr.not_nodup
    · exact hok

theorem axesUnmapped_iff : outcome = .error (.axesUnmapped names shape.length) ↔
    ¬Conflicting index? shape.length ∧ ∃ i < shape.length, ∀ name, index? name ≠ some i := by
  constructor
  · rintro rfl
    cases h with
    | conflict he => cases he
    | unmapped hnot hi hunnamed => exact ⟨hnot, _, hi, hunnamed⟩
  · rintro ⟨hnot, i, hi, hunnamed⟩
    exact h.of_unnamed hnot hi hunnamed

theorem wrongCount_iff : outcome = .error (.wrongCount ids.length shape) ↔
    NamesAxes index? shape.length ∧ ids.length ≠ shape.prod := by
  constructor
  · rintro rfl
    cases h with
    | conflict he => cases he
    | wrongCount hnames hcount => exact ⟨hnames, hcount⟩
  · rintro ⟨hnames, hne⟩
    rcases h.of_namesAxes hnames with ⟨-, heq⟩ | ⟨hcount, -⟩ | ⟨hcount, -⟩
    · exact heq
    · exact absurd hcount hne
    · exact absurd hcount hne

theorem repeatedRank_iff {r : Rank} : outcome = .error (.repeatedRank r) ↔
    NamesAxes index? shape.length ∧ ids.length = shape.prod ∧ FirstRepeat ids r := by
  constructor
  · rintro rfl
    cases h with
    | conflict he => cases he
    | repeatedRank hnames hcount hr => exact ⟨hnames, hcount, hr⟩
  · rintro ⟨hnames, hcount, hr⟩
    rcases h.of_namesAxes hnames with ⟨hne, -⟩ | ⟨-, r', hr', heq⟩ | ⟨-, hnodup, -⟩
    · exact absurd hcount hne
    · rwa [hr.unique hr']
    · exact absurd hnodup hr.not_nodup

/-- Two builds from the same indices come to the same mesh or to errors of one kind. -/
theorem agree {names' : Nat} {outcome' : Except MeshError Mesh} (h' : Verdict index? names' ids shape outcome') :
    outcome.mapError MeshError.kind = outcome'.mapError MeshError.kind := by
  cases h with
  | conflict he =>
    obtain ⟨e', rfl, hkind⟩ := h'.of_conflicting he.conflicting
    exact congrArg Except.error (he.kind_eq.trans hkind.symm)
  | unmapped hnot hi hunnamed =>
    rw [h'.of_unnamed hnot hi hunnamed]
    rfl
  | wrongCount hnames hcount => rw [h'.wrongCount_iff.2 ⟨hnames, hcount⟩]
  | repeatedRank hnames hcount hr => rw [h'.repeatedRank_iff.2 ⟨hnames, hcount, hr⟩]
  | @built mesh hnames hcount hnodup hids hshape haxes =>
    obtain ⟨mesh', rfl⟩ := h'.exists_ok_iff.2 ⟨hnames, hcount, hnodup⟩
    obtain ⟨hids', hshape', haxes'⟩ := h'.of_ok
    have hnames : mesh.axes = mesh'.axes :=
      List.ext_getElem? fun i => Option.ext fun name => (haxes i name).trans (haxes' i name).symm
    have hmesh : mesh = mesh' := Mesh.eq_iff.2 (by rw [hids, hids', hshape, hshape', hnames])
    rw [hmesh]

end Verdict

/-! ### Names in any order -/

/-- Let a table list the last index of every name, in whatever order.  A mesh is built from it exactly if these indices
number the axes one by one, there is a rank for each cell and no rank stands twice; it has the ranks and the shape, and
each axis has the name with its index.  Otherwise, the error is one of the dimensions exactly if an index lies outside
the shape or two names share one.  In all other cases it is one of the mesh: first of an axis without a name, then of
the number of ranks, then of the first rank that stands behind an equal one.  Another order of the names, or other
assignments that give every name the same last index, lead to the same mesh or to an error of the same kind. -/
theorem assemble_of_tabulates {assignments : List (Nat × String)} {table : List (String × Nat)}
    (htable : Tabulates table (lastIndex? assignments)) (ids : List Rank) (shape : List Nat) :
    ((∃ mesh, assemble ids shape table = .ok mesh) ↔
      NamesAxes (lastIndex? assignments) shape.length ∧ ids.length = shape.prod ∧ ids.Nodup) ∧
    (∀ mesh, assemble ids shape table = .ok mesh → mesh.ids = ids ∧ mesh.shape = shape ∧
      ∀ i name, mesh.axes[i]? = some name ↔ lastIndex? assignments name = some i) ∧
    (∀ e, assemble ids shape table = .error e →
      (e.kind = .invalidDimension ↔ Conflicting (lastIndex? assignments) shape.length) ∧
      (e.kind = .invalidMesh ↔ ¬Conflicting (lastIndex? assignments) shape.length)) ∧
    (assemble ids shape table = .error (.axesUnmapped table.length shape.length) ↔
      ¬Conflicting (lastIndex? assignments) shape.length ∧
        ∃ i < shape.length, ∀ name, lastIndex? assignments name ≠ some i) ∧
    (assemble ids shape table = .error (.wrongCount ids.length shape) ↔
      NamesAxes (lastIndex? assignments) shape.length ∧ ids.length ≠ shape.prod) ∧
    (∀ r, assemble ids shape table = .error (.repeatedRank r) ↔
      NamesAxes (lastIndex? assignments) shape.length ∧ ids.length = shape.prod ∧ FirstRepeat ids r) ∧
    (build ids shape assignments).mapError MeshError.kind = (assemble ids shape table).mapError MeshError.kind ∧
    ∀ (assignments' : List (Nat × String)) (table' : List (String × Nat)),
      Tabulates table' (lastIndex? assignments') → lastIndex? assignments' = lastIndex? assignments →
        (assemble ids shape table').mapError MeshError.kind = (assemble ids shape table).mapError MeshError.kind := by
  have h := verdict_assemble htable ids shape
  refine ⟨h.exists_ok_iff, fun mesh hok => (hok ▸ h).of_ok, fun e he => ?_, h.axesUnmapped_iff, h.wrongCount_iff,
    fun r => h.repeatedRank_iff, ?_, fun assignments' table' htable' hsame => ?_⟩
  · have hkind := (he ▸ h).kind_eq_iff
    exact ⟨hkind, (MeshErrorKind.eq_invalidMesh_iff e.kind).trans (not_congr hkind)⟩
  · exact (verdict_assemble (tabulates_axisTable assignments) ids shape).agree h
  · exact (verdict_assemble (hsame ▸ htable') ids shape).agree h

/-- Two names that change places are last given the indices 0 and 1, and the table lists them the other way round. -/
theorem assemble_of_tabulates_exchanged :
    Tabulates [("y", 1), ("x", 0)] (lastIndex? [(1, "x"), (0, "y"), (0, "x"), (1, "y")]) ∧
      (∃ mesh, assemble [4, 7] [1, 2] [("y", 1), ("x", 0)] = .ok mesh) ∧
      assemble [4, 4] [1, 2] [("y", 1), ("x", 0)] = .error (.repeatedRank 4) := by
  have htable : Tabulates [("y", 1), ("x", 0)] (lastIndex? [(1, "x"), (0, "y"), (0, "x"), (1, "y")]) :=
    (tabulates_axisTable _).perm (by decide)
  have hnames : NamesAxes (lastIndex? [(1, "x"), (0, "y"), (0, "x"), (1, "y")]) 2 := by
    refine namesAxes_iff.2 ⟨?_, ?_⟩
    · simp only [Conflicting, ← htable.mem_iff]
      grind
    · intro i hi
      obtain rfl | rfl : i = 0 ∨ i = 1 := by omega
      · exact ⟨"x", (htable.mem_iff _ _).1 (by decide)⟩
      · exact ⟨"y", (htable.mem_iff _ _).1 (by decide)⟩
  obtain ⟨hok, -⟩ := assemble_of_tabulates htable [4, 7] [1, 2]
  obtain ⟨-, -, -, -, -, hrepeat, -⟩ := assemble_of_tabulates htable [4, 4] [1, 2]
  exact ⟨htable, hok.2 ⟨hnames, rfl, by decide⟩, (hrepeat 4).2 ⟨hnames, rfl, [4], [], rfl, by decide, by decide⟩⟩

/-! ### Grids -/

theorem axisName_inj {i j : Nat} : axisName i = axisName j ↔ i = j := by
  refine ⟨fun h => ?_, congrArg axisName⟩
  -- The digits behind the letter tell the number.
  have hdigits : Nat.toDigits 10 i = Nat.toDigits 10 j := String.ofList_injective ((String.append_right_inj _).1 h)
  rw [← Nat.ofDigitChars_toDigits (b := 10) (n := i) (by decide) (by decide), hdigits,
    Nat.ofDigitChars_toDigits (by decide) (by decide)]

/-- No two axes of a grid have one name, so that no assignment undoes another one. -/
theorem lastIndex?_axisNames {n i : Nat} {name : String} :
    lastIndex? ((List.range n).map fun k => (k, axisName k)) name = some i ↔ i < n ∧ name = axisName i := by
  induction n with
  | zero => simp [lastIndex?]
  | succ n ih =>
    rw [List.range_succ, List.map_append, List.map_singleton, lastIndex?_concat]
    by_cases h : axisName n = name
    · subst h
      rw [if_pos rfl, Option.some.injEq, axisName_inj]
      omega
    · rw [if_neg h, ih]
      grind

theorem namesAxes_axisNames (n : Nat) :
    NamesAxes (lastIndex? ((List.range n).map fun i => (i, axisName i))) n where
  lt _ _ hi := (lastIndex?_axisNames.1 hi).1
  injective _ _ _ hi hother := (lastIndex?_axisNames.1 hi).2.trans (lastIndex?_axisNames.1 hother).2.symm
  surjective i hi := ⟨axisName i, lastIndex?_axisNames.2 ⟨hi, rfl⟩⟩

/-- A grid is built exactly if there is a rank for each cell and no rank stands twice.  It has the ranks and the shape,
and its axes are named `d0`, `d1`, … in order.  The names are never at fault: an error tells a wrong number of ranks or
the first rank that stands behind an equal one. -/
theorem grid_of_ranks (ids : List Rank) (shape : List Nat) :
    ((∃ mesh, grid ids shape = .ok mesh) ↔ ids.length = shape.prod ∧ ids.Nodup) ∧
    (∀ mesh, grid ids shape = .ok mesh → mesh.ids = ids ∧ mesh.shape = shape ∧
      mesh.axes = (List.range shape.length).map fun i => "d" ++ toString i) ∧
    ∀ e, grid ids shape = .error e → e.kind ≠ .invalidDimension ∧
      (e = .wrongCount ids.length shape ∧ ids.length ≠ shape.prod ∨
        ids.length = shape.prod ∧ ∃ r, FirstRepeat ids r ∧ e = .repeatedRank r) := by
  have hnames := namesAxes_axisNames shape.length
  have h := verdict_assemble (tabulates_axisTable ((List.range shape.length).map fun i => (i, axisName i))) ids shape
  change Verdict _ _ ids shape (grid ids shape) at h
  refine ⟨?_, fun mesh hok => ?_, fun e he => ?_⟩
  · rw [h.exists_ok_iff, and_iff_right hnames]
  · obtain ⟨hids, hshape, haxes⟩ := (hok ▸ h).of_ok
    refine ⟨hids, hshape, List.ext_getElem? fun i => Option.ext fun name => ?_⟩
    rw [haxes, lastIndex?_axisNames, List.getElem?_eq_some_iff]
    simp [axisName, eq_comm]
  · rw [he] at h
    refine ⟨fun hkind => hnames.not_conflicting (h.kind_eq_iff.1 hkind), ?_⟩
    rcases h.of_namesAxes hnames with ⟨hne, heq⟩ | ⟨hcount, r, hr, heq⟩ | ⟨-, -, mesh, heq⟩
    · exact .inl ⟨Except.error.inj heq, hne⟩
    · exact .inr ⟨hcount, r, hr, Except.error.inj heq⟩
    · cases heq

end Mesh

end CrossMesh
