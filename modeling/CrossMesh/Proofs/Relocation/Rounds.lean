import CrossMesh.Proofs.Relocation.Matching

/-!
# Sends and receives of many relocations match in order

Several ranks run the same relocations one after the other, each on its own copy of a program and with a value of its
own, and insert other operations in between.  Their programs grow apart, since a relocation adds two operations for a
sender, one for a receiver and none for a rank that keeps its data.  Still, the sends from one rank to another come
from the same relocations, in the same order, as the receives of the other from the one (`rounds_match`): as long as
the insertion point is not moved, what is inserted later is executed later, so both orders are that of the relocations
in which the two ranks are a pair.
-/

namespace CrossMesh

/-! ### Runs -/

/-- A relocation that many ranks take part in, each with a value of its own. -/
structure Round where
  src : Placement
  dst : Placement
  type : TensorType
  config : Config

namespace Round

def relocation (r : Round) (value : ValueId) : Relocation where
  src := r.src
  dst := r.dst
  value := value
  type := r.type

def pairs (r : Round) : List (Rank × Rank) := r.src.mesh.pairsWith r.dst.mesh

/-- The placements suit and the type can be received. -/
def Sound (r : Round) : Prop := r.src.Relocatable r.dst ∧ ¬r.type.Dynamic

end Round

/-- What one rank does for a round: it inserts some operations of its own and then relocates a value. -/
structure Turn where
  round : Round
  drafts : List Program.Draft
  value : ValueId

/-- What a relocation answers, and the numbers of its operations: from `first` up to but not including `stop`. -/
structure Outcome where
  answer : Except RelocationError ValueId
  first : Nat
  stop : Nat

/-- The operation was inserted by this relocation. -/
def Outcome.Made (o : Outcome) (op : OpId) : Prop := o.first ≤ op.index ∧ op.index < o.stop

instance (o : Outcome) (op : OpId) : Decidable (o.Made op) :=
  inferInstanceAs (Decidable (o.first ≤ op.index ∧ op.index < o.stop))

namespace Worker

/-- Inserts drafts one after the other; one with an unknown operand is left out. -/
def insertAll (w : Worker) (ds : List Program.Draft) : Worker := ds.foldl (fun w d => (w.insert d).2) w

def turn (w : Worker) (rank : Rank) (t : Turn) : Outcome × Worker :=
  let w := w.insertAll t.drafts
  let r := w.relocateWith Strategy.defaults rank t.round.config (t.round.relocation t.value)
  ({ answer := r.1, first := w.program.ops.size, stop := r.2.program.ops.size }, r.2)

/-- Takes all turns, and inserts the operations of `rest` in the end. -/
def follow (w : Worker) (rank : Rank) (rest : List Program.Draft) : List Turn → List Outcome × Worker
  | [] => ([], w.insertAll rest)
  | t :: ts =>
    let r := (w.turn rank t).2.follow rank rest ts
    ((w.turn rank t).1 :: r.1, r.2)

/-- Every value to be relocated can be used when its turn comes. -/
def Ready (w : Worker) (rank : Rank) : List Turn → Prop
  | [] => True
  | t :: ts => (w.insertAll t.drafts).program.Available t.value ∧ (w.turn rank t).2.Ready rank ts

end Worker

/-! ### The rounds of operations -/

/-- The round that inserted an operation. -/
def roundOf (os : List Outcome) (op : OpId) : Option Nat := os.findIdx? fun o => o.Made op

/-- The rounds of some operations, without those that no round inserted. -/
def roundsOf (os : List Outcome) (us : List (OpId × Operation)) : List Nat := us.filterMap fun u => roundOf os u.1

/-- Whether the operation sends to `peer`, as the groups `t` read it. -/
def Operation.sendsTo (o : Operation) (t : Groups) (peer : Rank) : Bool :=
  match o.kind with
  | .send group place _ => t.member? group place = some peer
  | _ => false

/-- Whether the operation receives from `peer`, as the groups `t` read it. -/
def Operation.receivesFrom (o : Operation) (t : Groups) (peer : Rank) : Bool :=
  match o.kind with
  | .receive group place _ _ => t.member? group place = some peer
  | _ => false

/-- The rounds whose sends go to `peer`, in the order in which the program executes them. -/
def Worker.sendRounds (w : Worker) (os : List Outcome) (peer : Rank) : List Nat :=
  roundsOf os (w.program.live.filter fun u => u.2.sendsTo w.groups peer)

/-- The rounds whose receives come from `peer`, in the order in which the program executes them. -/
def Worker.receiveRounds (w : Worker) (os : List Outcome) (peer : Rank) : List Nat :=
  roundsOf os (w.program.live.filter fun u => u.2.receivesFrom w.groups peer)

section RoundsOf

variable {o : Outcome} {os : List Outcome} {us : List (OpId × Operation)}

theorem roundsOf_append (us us' : List (OpId × Operation)) :
    roundsOf os (us ++ us') = roundsOf os us ++ roundsOf os us' :=
  List.filterMap_append

theorem roundsOf_eq_nil (h : ∀ u ∈ us, ∀ o ∈ os, ¬o.Made u.1) : roundsOf os us = [] := by
  refine List.filterMap_eq_nil_iff.2 fun u hu => List.findIdx?_eq_none_iff.2 fun o ho => ?_
  exact decide_eq_false (h u hu o ho)

theorem roundsOf_cons_of_made (h : ∀ u ∈ us, o.Made u.1) : roundsOf (o :: os) us = List.replicate us.length 0 := by
  unfold roundsOf
  have hzero : ∀ u ∈ us, roundOf (o :: os) u.1 = some 0 := by
    intro u hu
    unfold roundOf
    rw [List.findIdx?_cons, if_pos (decide_eq_true (h u hu))]
  rw [List.filterMap_congr hzero, List.filterMap_eq_map', List.map_const']

theorem roundsOf_cons_of_not_made (h : ∀ u ∈ us, ¬o.Made u.1) :
    roundsOf (o :: os) us = (roundsOf os us).map (· + 1) := by
  unfold roundsOf
  rw [List.map_filterMap]
  apply List.filterMap_congr
  intro u hu
  unfold roundOf
  rw [List.findIdx?_cons, if_neg (by simpa using h u hu)]

end RoundsOf

/-! ### The operation of a pair -/

/-- On a rank with the groups `t`, a relocation adds one operation of this kind if `pair` is a pair of it, and else
none. -/
def MarksPair (t : Groups) (rank : Rank) (pair : Rank × Rank) (kind : Operation → Bool) : Prop :=
  ∀ (m : Relocation) (p : Program) (config : Config) (ds : List Program.Draft) (v : ValueId),
    m.src.Relocatable m.dst → m.Part p t rank config (roleOf m.pairs rank) ds v →
      ((p.placed ds).filter fun u => kind u.2).length = if pair ∈ m.pairs then 1 else 0

section MarksPair

variable {t : Groups} (ht : t.Numbered) {a b : Rank} (hab : a ≠ b)

include ht hab

theorem marksPair_sendsTo : MarksPair t a (a, b) fun o => o.sendsTo t b := by
  intro m p config ds v hm h
  have hpair : (a, b) ∈ m.pairs ↔ roleOf m.pairs a = .sender b := by
    rw [roleOf_eq_sender_iff (Relocation.pairwise_apart hm)]
    exact (and_iff_left (Ne.symm hab)).symm
  simp only [hpair]
  generalize roleOf m.pairs a = role at h
  cases h with
  | @sender peer g chunk hg hchunk =>
    have hsend : (p.draftOperation (m.sendDraft g.id chunk config.stream)).sendsTo t b = decide (peer = b) := by
      show decide (t.member? g.id 1 = some b) = _
      rw [ht.member?_find? hg]
      simp
    have hplaceholder : ∀ q : Program, (q.draftOperation m.placeholderDraft).sendsTo t b = false := fun _ => rfl
    simp only [Program.placed, List.filter_cons, hsend, hplaceholder, List.filter_nil]
    by_cases hpeer : peer = b <;> simp [hpeer]
  | receiver hg htype => rfl
  | stationary => rfl
  | bystander hsrc hdst hvalue => rfl

theorem marksPair_receivesFrom : MarksPair t b (a, b) fun o => o.receivesFrom t a := by
  intro m p config ds v hm h
  have hpair : (a, b) ∈ m.pairs ↔ roleOf m.pairs b = .receiver a := by
    rw [roleOf_eq_receiver_iff (Relocation.pairwise_apart hm)]
    exact (and_iff_left hab).symm
  simp only [hpair]
  generalize roleOf m.pairs b = role at h
  cases h with
  | sender hg hchunk => rfl
  | @receiver peer g hg htype =>
    have hreceive : ∀ chunk, (p.draftOperation (m.receiveDraft g.id chunk config.stream)).receivesFrom t a =
        decide (peer = a) := by
      intro chunk
      show decide (t.member? g.id 0 = some a) = _
      rw [ht.member?_find? hg]
      simp
    simp only [Program.placed, List.filter_cons, hreceive, List.filter_nil]
    by_cases hpeer : peer = a <;> simp [hpeer]
  | stationary => rfl
  | bystander hsrc hdst hvalue => rfl

end MarksPair

/-! ### One turn -/

namespace Worker

theorem insertAll_eq (w : Worker) (ds : List Program.Draft) : ∃ es journal, w.program.Accepts es ∧
    w.insertAll ds = { program := w.program.placeAll es, groups := w.groups, journal } := by
  induction ds generalizing w with
  | nil => exact ⟨[], w.journal, trivial, rfl⟩
  | cons d ds ih =>
    obtain ⟨es, journal, hes, hrest⟩ := ih (w.insert d).2
    by_cases hd : w.program.Known d
    · obtain ⟨journal', hins⟩ := insert_of_known hd
      refine ⟨d :: es, journal, ?_, ?_⟩
      · rw [hins] at hes
        exact ⟨hd, hes⟩
      · show (w.insert d).2.insertAll ds = _
        rw [hrest, hins]
        rfl
    · have hsame : (w.insert d).2 = w := by
        unfold insert
        cases hins : w.program.insert d with
        | error e => rfl
        | ok r => exact absurd (Program.insert_eq_ok hins).1 hd
      rw [hsame] at hes hrest
      refine ⟨es, journal, hes, ?_⟩
      show (w.insert d).2.insertAll ds = _
      rw [hsame, hrest]

/-- A turn inserts the rank's own operations and then those of its part in the relocation. -/
theorem exists_turn {w : Worker} (rank : Rank) {t : Turn} (hround : t.round.Sound)
    (hvalue : (w.insertAll t.drafts).program.Available t.value) : ∃ es v ds,
    w.program.Accepts es ∧
      (t.round.relocation t.value).Part (w.program.placeAll es) (w.turn rank t).2.groups rank t.round.config
        (roleOf t.round.pairs rank) ds v ∧
      (w.turn rank t).1.answer = .ok v ∧ (w.turn rank t).1.first = (w.program.placeAll es).ops.size ∧
      (w.turn rank t).1.stop = ((w.program.placeAll es).placeAll ds).ops.size ∧
      (w.turn rank t).2.program = (w.program.placeAll es).placeAll ds ∧
      ∃ members, (w.turn rank t).2.groups = w.groups.requestAll members := by
  obtain ⟨es, journal, hes, hinsert⟩ := insertAll_eq w t.drafts
  obtain ⟨v, w', ds, hok, hgroups, hpart, hprogram⟩ :=
    exists_relocateWith (m := t.round.relocation t.value) hround.1 hround.2 hvalue rank t.round.config
  have hturn : w.turn rank t =
      (⟨.ok v, (w.insertAll t.drafts).program.ops.size, w'.program.ops.size⟩, w') := by
    unfold turn
    simp only [hok]
  rw [hinsert] at hgroups hpart hprogram hturn
  rw [hturn]
  exact ⟨es, v, ds, hes, hpart, rfl, rfl, congrArg (fun p : Program => p.ops.size) hprogram, hprogram, _, hgroups⟩

/-- Values that can be used at first can be used in every turn. -/
theorem ready_of_available {w : Worker} {rank : Rank} {turns : List Turn}
    (h : ∀ t ∈ turns, t.round.Sound ∧ w.program.Available t.value) : w.Ready rank turns := by
  induction turns generalizing w with
  | nil => trivial
  | cons t ts ih =>
    obtain ⟨hround, hvalue⟩ := h t (List.mem_cons_self ..)
    obtain ⟨es, journal, -, hinsert⟩ := insertAll_eq w t.drafts
    have hvalue' : (w.insertAll t.drafts).program.Available t.value := by
      rw [hinsert]
      exact hvalue.placeAll es
    obtain ⟨es', v, ds, -, -, -, -, -, hprogram, -⟩ := exists_turn rank hround hvalue'
    refine ⟨hvalue', ih fun t' ht' => ?_⟩
    obtain ⟨hround', havailable⟩ := h t' (List.mem_cons_of_mem _ ht')
    rw [hprogram]
    exact ⟨hround', (havailable.placeAll es').placeAll ds⟩

end Worker

/-! ### All turns -/

/-- Of all operations that a rank inserts, those of the relocation `o` are in between: its own earlier ones belong to no
round, and later ones to later rounds. -/
theorem roundsOf_cons_placed (p : Program) (es ds more : List Program.Draft) {o : Outcome} {os : List Outcome}
    (hfirst : o.first = (p.placeAll es).ops.size) (hstop : o.stop = ((p.placeAll es).placeAll ds).ops.size)
    (hos : ∀ o' ∈ os, o.stop ≤ o'.first) (kind : Operation → Bool) :
    roundsOf (o :: os) ((p.placed (es ++ ds ++ more)).filter fun u => kind u.2) =
      List.replicate (((p.placeAll es).placed ds).filter fun u => kind u.2).length 0 ++
        (roundsOf os ((((p.placeAll es).placeAll ds).placed more).filter fun u => kind u.2)).map (· + 1) := by
  have hes := Program.size_ops_placeAll p es
  have hds := Program.size_ops_placeAll (p.placeAll es) ds
  have hearlier : ∀ u ∈ (p.placed es).filter fun u => kind u.2, ∀ o' ∈ o :: os, ¬o'.Made u.1 := by
    intro u hu o' ho' hmade
    have hlt := (Program.index_of_mem_placed (List.mem_of_mem_filter hu)).2
    have hle := hmade.1
    rcases List.mem_cons.1 ho' with rfl | ho'
    · omega
    · have := hos o' ho'
      omega
  have hmade : ∀ u ∈ ((p.placeAll es).placed ds).filter fun u => kind u.2, o.Made u.1 := by
    intro u hu
    have hbounds := Program.index_of_mem_placed (List.mem_of_mem_filter hu)
    unfold Outcome.Made
    omega
  have hlater : ∀ u ∈ (((p.placeAll es).placeAll ds).placed more).filter fun u => kind u.2, ¬o.Made u.1 := by
    intro u hu hmade
    have hge := (Program.index_of_mem_placed (List.mem_of_mem_filter hu)).1
    have hlt := hmade.2
    omega
  rw [Program.placed_append, Program.placed_append, Program.placeAll_append, List.filter_append, List.filter_append,
    roundsOf_append, roundsOf_append, roundsOf_eq_nil hearlier, roundsOf_cons_of_made hmade,
    roundsOf_cons_of_not_made hlater, List.nil_append]

/-- A rank that went through some rounds inserted `ds` on the way and succeeded in each of them.  Whatever kind of
operation marks a pair, the inserted ones of this kind come from the rounds with that pair, in order. -/
structure Followed (w : Worker) (rank : Rank) (rounds : List Round) (ds : List Program.Draft) (os : List Outcome)
    (w' : Worker) : Prop where
  accepts : w.program.Accepts ds
  program : w'.program = w.program.placeAll ds
  groups : ∃ members, w'.groups = w.groups.requestAll members
  answers : ∀ o ∈ os, ∃ v, o.answer = .ok v
  first_le : ∀ o ∈ os, w.program.ops.size ≤ o.first
  marked : ∀ t pair kind, MarksPair t rank pair kind → w'.groups.toList <+: t.toList →
    roundsOf os ((w.program.placed ds).filter fun u => kind u.2) = rounds.findIdxs fun r => pair ∈ r.pairs

namespace Followed

variable {w w' : Worker} {rank : Rank} {rounds : List Round} {os : List Outcome}

theorem insertAll (w : Worker) (rank : Rank) (rest : List Program.Draft) :
    ∃ ds, Followed w rank [] ds [] (w.insertAll rest) := by
  obtain ⟨ds, journal, hds, hinsert⟩ := Worker.insertAll_eq w rest
  rw [hinsert]
  exact ⟨ds, {
    accepts := hds
    program := rfl
    groups := ⟨[], rfl⟩
    answers := fun o ho => absurd ho List.not_mem_nil
    first_le := fun o ho => absurd ho List.not_mem_nil
    marked := fun t pair kind _ _ => roundsOf_eq_nil fun u _ o ho => absurd ho List.not_mem_nil }⟩

theorem turn {t : Turn} {more : List Program.Draft} (hround : t.round.Sound)
    (hvalue : (w.insertAll t.drafts).program.Available t.value)
    (h : Followed (w.turn rank t).2 rank rounds more os w') :
    ∃ ds, Followed w rank (t.round :: rounds) ds ((w.turn rank t).1 :: os) w' := by
  obtain ⟨es, v, ds, hes, hpart, hanswer, hfirst, hstop, hprogram, members, hgroups⟩ :=
    Worker.exists_turn rank hround hvalue
  obtain ⟨members', hgroups'⟩ := h.groups
  have hmore := h.accepts
  have hrest : ∀ o ∈ os, (w.turn rank t).1.stop ≤ o.first := by
    intro o ho
    rw [hstop, ← hprogram]
    exact h.first_le o ho
  rw [hprogram] at hmore
  have hes' := Program.size_ops_placeAll w.program es
  have hds' := Program.size_ops_placeAll (w.program.placeAll es) ds
  refine ⟨es ++ ds ++ more, ?_, ?_, ⟨members ++ members', ?_⟩, ?_, ?_, ?_⟩
  · rw [Program.accepts_append, Program.accepts_append, Program.placeAll_append]
    exact ⟨⟨hes, hpart.accepts⟩, hmore⟩
  · rw [h.program, hprogram, Program.placeAll_append, Program.placeAll_append]
  · rw [hgroups', hgroups, Groups.requestAll_append]
  · intro o ho
    rcases List.mem_cons.1 ho with rfl | ho
    · exact ⟨v, hanswer⟩
    · exact h.answers o ho
  · intro o ho
    rcases List.mem_cons.1 ho with rfl | ho
    · omega
    · have := hrest o ho
      omega
  · intro u pair kind hkind hu
    -- The groups of this turn are still there in the end, so its operations are read as they were meant.
    have hprefix : (w.turn rank t).2.groups.toList <+: u.toList := by
      refine List.IsPrefix.trans ?_ hu
      rw [hgroups']
      exact Groups.prefix_requestAll ..
    have hcount := hkind _ _ _ _ _ hround.1 (hpart.mono hprefix)
    have hmarked := h.marked u pair kind hkind hu
    rw [hprogram] at hmarked
    rw [roundsOf_cons_placed _ _ _ _ hfirst hstop hrest, hmarked, hcount, List.findIdxs_cons,
      List.findIdxs_start (s := 0 + 1)]
    show List.replicate (if pair ∈ t.round.pairs then 1 else 0) 0 ++ _ = _
    by_cases hpair : pair ∈ t.round.pairs
    · rw [if_pos hpair, if_pos (decide_eq_true hpair)]
      rfl
    · rw [if_neg hpair, if_neg (by simpa using hpair)]
      rfl

/-- The kind of operation that marks a pair is executed in the order of the rounds. -/
theorem marked_live {ds : List Program.Draft} (h : Followed w rank rounds ds os w') (hp : w.program.Coherent)
    {pair : Rank × Rank} {kind : Operation → Bool} (hkind : MarksPair w'.groups rank pair kind) :
    roundsOf os (w'.program.live.filter fun u => kind u.2) = rounds.findIdxs fun r => pair ∈ r.pairs := by
  -- What was there before the first round stands around the block of all that was inserted since.
  have hold : ∀ ids : List OpId, (∀ id ∈ ids, id.index < w.program.ops.size) →
      roundsOf os ((w.program.pick ids).filter fun u => kind u.2) = [] := by
    intro ids hids
    refine roundsOf_eq_nil fun u hu o ho hmade => ?_
    have hlt := hids u.1 (Program.fst_mem_of_mem_pick (List.mem_of_mem_filter hu))
    have hle := Nat.le_trans (h.first_le o ho) hmade.1
    omega
  rw [h.program, hp.live_placeAll h.accepts, List.filter_append, List.filter_append, roundsOf_append, roundsOf_append,
    hold _ fun id => hp.index_lt_of_mem_left, hold _ fun id => hp.index_lt_of_mem_right, List.nil_append,
    List.append_nil]
  exact h.marked _ pair kind hkind (List.prefix_refl _)

end Followed

theorem Worker.exists_followed {w : Worker} {rank : Rank} (rest : List Program.Draft) {turns : List Turn}
    (hrounds : ∀ t ∈ turns, t.round.Sound) (hready : w.Ready rank turns) : ∃ ds,
    Followed w rank (turns.map Turn.round) ds (w.follow rank rest turns).1 (w.follow rank rest turns).2 := by
  induction turns generalizing w with
  | nil => exact Followed.insertAll w rank rest
  | cons t ts ih =>
    obtain ⟨hvalue, hready⟩ := hready
    obtain ⟨more, hmore⟩ := ih (fun t' ht' => hrounds t' (List.mem_cons_of_mem _ ht')) hready
    exact hmore.turn (hrounds t (List.mem_cons_self ..)) hvalue

theorem Worker.length_follow (w : Worker) (rank : Rank) (rest : List Program.Draft) (turns : List Turn) :
    (w.follow rank rest turns).1.length = turns.length := by
  induction turns generalizing w with
  | nil => rfl
  | cons t ts ih => exact congrArg (· + 1) (ih (w.turn rank t).2)

/-- Some ranks run the same relocations in the same order, each on its own copy of a program, with a value of its own
for each, and insert other operations in between, but do not move the insertion point.  Then all relocations succeed,
and for any two ranks the sends of the first to the second come from the same relocations, in the order in which the
program of the first executes them, as the receives of the second from the first, in the order in which the program
of the second executes those: from the relocations in which the two are a pair. -/
theorem rounds_match {p : Program} (hp : p.Reachable) {rounds : List Round} (hrounds : ∀ r ∈ rounds, r.Sound)
    (ranks : List Rank) (workers : Rank → Worker) (turns : Rank → List Turn) (rest : Rank → List Program.Draft)
    (hworkers : ∀ r ∈ ranks, (workers r).program = p ∧ (workers r).groups.Reachable)
    (hturns : ∀ r ∈ ranks, (turns r).map Turn.round = rounds)
    (hready : ∀ r ∈ ranks, (workers r).Ready r (turns r)) :
    (∀ r ∈ ranks, ((workers r).follow r (rest r) (turns r)).1.length = rounds.length ∧
      ∀ o ∈ ((workers r).follow r (rest r) (turns r)).1, ∃ v, o.answer = .ok v) ∧
    ∀ a ∈ ranks, ∀ b ∈ ranks, a ≠ b →
      ((workers a).follow a (rest a) (turns a)).2.sendRounds ((workers a).follow a (rest a) (turns a)).1 b =
          ((workers b).follow b (rest b) (turns b)).2.receiveRounds ((workers b).follow b (rest b) (turns b)).1 a ∧
        ((workers a).follow a (rest a) (turns a)).2.sendRounds ((workers a).follow a (rest a) (turns a)).1 b =
          rounds.findIdxs fun r => (a, b) ∈ r.pairs := by
  have hfollowed : ∀ r ∈ ranks, ∃ ds, Followed (workers r) r rounds ds ((workers r).follow r (rest r) (turns r)).1
      ((workers r).follow r (rest r) (turns r)).2 := by
    intro r hr
    have hsound : ∀ t ∈ turns r, t.round.Sound :=
      fun t ht => hrounds t.round (hturns r hr ▸ List.mem_map_of_mem ht)
    have h := Worker.exists_followed (rest r) hsound (hready r hr)
    rw [hturns r hr] at h
    exact h
  have hcoherent : ∀ r ∈ ranks, (workers r).program.Coherent := fun r hr => (hworkers r hr).1 ▸ hp.coherent
  have hnumbered : ∀ r ∈ ranks, ((workers r).follow r (rest r) (turns r)).2.groups.Numbered := by
    intro r hr
    obtain ⟨ds, h⟩ := hfollowed r hr
    obtain ⟨members, hgroups⟩ := h.groups
    rw [hgroups]
    exact (hworkers r hr).2.numbered.requestAll members
  refine ⟨fun r hr => ?_, fun a ha b hb hab => ?_⟩
  · obtain ⟨ds, h⟩ := hfollowed r hr
    refine ⟨?_, h.answers⟩
    rw [Worker.length_follow, ← hturns r hr, List.length_map]
  · obtain ⟨ds, h⟩ := hfollowed a ha
    obtain ⟨ds', h'⟩ := hfollowed b hb
    have hsends := h.marked_live (hcoherent a ha) (marksPair_sendsTo (hnumbered a ha) hab)
    have hreceives := h'.marked_live (hcoherent b hb) (marksPair_receivesFrom (hnumbered b hb) hab)
    exact ⟨hsends.trans hreceives.symm, hsends⟩

/-- The relocation `overlap`, then the same value back, then `overlap` again. -/
def threeRounds : List Round :=
  let there : Round := ⟨overlap.src, overlap.dst, overlap.type, {}⟩
  [there, ⟨overlap.dst, overlap.src, overlap.type, {}⟩, there]

/-- The turns of a rank in `threeRounds`, each with an operation of its own before. -/
def threeTurns : List Turn :=
  threeRounds.map fun r => ⟨r, [{ kind := .compute "d", operands := [⟨1⟩], types := [] }], ⟨0⟩⟩

/-- What a rank with the program `forked` does in `threeRounds`. -/
def threeFollowed (rank : Rank) : List Outcome × Worker :=
  Worker.follow { program := Program.forked } rank [] threeTurns

theorem threeRounds_sound : ∀ r ∈ threeRounds, r.Sound := by
  have hback : overlap.dst.Relocatable overlap.src := by decide
  have hstatic : ¬overlap.type.Dynamic := by decide
  intro r hr
  simp only [threeRounds, List.mem_cons, List.not_mem_nil, or_false] at hr
  rcases hr with rfl | rfl | rfl
  · exact ⟨overlap_relocatable, hstatic⟩
  · exact ⟨hback, hstatic⟩
  · exact ⟨overlap_relocatable, hstatic⟩

theorem rounds_match_threeRounds :
    (∀ r ∈ threeRounds, r.Sound) ∧
      (threeFollowed 0).2.sendRounds (threeFollowed 0).1 2 = (threeFollowed 2).2.receiveRounds (threeFollowed 2).1 0 ∧
      (threeFollowed 0).2.sendRounds (threeFollowed 0).1 2 = [0, 2] := by
  have hturns : threeTurns.map Turn.round = threeRounds := by
    unfold threeTurns
    rw [List.map_map]
    exact List.map_id _
  have hready : ∀ r, Worker.Ready { program := Program.forked } r threeTurns := by
    refine fun r => Worker.ready_of_available fun t ht => ?_
    obtain ⟨round, hround, rfl⟩ := List.mem_map.1 ht
    exact ⟨threeRounds_sound round hround, Program.forked_available⟩
  have h := rounds_match Program.forked_reachable threeRounds_sound [0, 1, 2] (fun _ => { program := Program.forked })
    (fun _ => threeTurns) (fun _ => []) (fun r _ => ⟨rfl, [], rfl⟩) (fun r _ => hturns) fun r _ => hready r
  have hpair := h.2 0 (by decide) 2 (by decide) (by decide)
  exact ⟨threeRounds_sound, hpair.1, hpair.2⟩

end CrossMesh
