/-
  JitCache.Proofs.Space.FreeSpans
  ───────────────────────────────
  **Lists of free spans, as sets of bytes.**

  A list of free spans is read as the set of the bytes it holds.  `Separated`
  lists are the ones an arena keeps: ascending, no span empty, no two touching.

  The three list operations clip their sums at the largest word.  Here each has
  an *exact* twin that adds without bound.  What the operations do to the bytes
  is proved of the twins, and the operations agree with their twins as long as
  every span ends within a word.

  Main statements:
    `carve?_eq_carveExact?`, `join_eq_joinExact`, `settle_eq_settleExact`
                                  — nothing is ever clipped
    `holds_of_carved`             — carving takes exactly the bytes of the cut
    `holds_joinExact`             — joining adds exactly the bytes of the span
    `holds_settleExact`           — settling drops exactly the bytes from the lowered top on
-/
import JitCache.Region.Arena

namespace JitCache

/-! ## §1. Spans as sets of bytes. -/

namespace Span

/-- The first offset behind the span, without a bound. -/
def finish (span : Span) : Nat := span.offset + span.length

instance : Membership Nat Span := ⟨fun span byte => span.offset ≤ byte ∧ byte < span.finish⟩

theorem mem_iff {span : Span} {byte : Nat} :
    byte ∈ span ↔ span.offset ≤ byte ∧ byte < span.offset + span.length := Iff.rfl

theorem stop_eq_finish {span : Span} (h : span.finish ≤ Word.maxValue) :
    span.stop = span.finish :=
  Word.add_of_le h

/-- Two spans without a common byte, neither of them empty, lie one behind the other. -/
theorem le_or_le_of_disjoint {a b : Span} (ha : 0 < a.length) (hb : 0 < b.length)
    (h : ∀ byte, byte ∈ a → byte ∉ b) : a.finish ≤ b.offset ∨ b.finish ≤ a.offset := by
  have hafirst := h a.offset
  have hbfirst := h b.offset
  simp only [mem_iff, finish] at hafirst hbfirst ⊢
  omega

end Span

namespace FreeSpans

/-- Whether a byte is in one of the spans. -/
def Holds (spans : List Span) (byte : Nat) : Prop := ∃ span ∈ spans, byte ∈ span

/-- Ascending, no span empty, and between any two at least one byte that is in neither. -/
def Separated (spans : List Span) : Prop :=
  (∀ span ∈ spans, 0 < span.length) ∧ spans.Pairwise fun a b => a.finish < b.offset

theorem holds_nil {byte : Nat} : ¬ Holds [] byte := by
  intro h
  obtain ⟨span, hmem, -⟩ := h
  cases hmem

theorem holds_cons {span : Span} {rest : List Span} {byte : Nat} :
    Holds (span :: rest) byte ↔ byte ∈ span ∨ Holds rest byte := by
  unfold Holds
  simp

theorem separated_nil : Separated [] := ⟨by simp, .nil⟩

theorem separated_cons {span : Span} {rest : List Span} :
    Separated (span :: rest) ↔
      0 < span.length ∧ (∀ later ∈ rest, span.finish < later.offset) ∧ Separated rest := by
  unfold Separated
  rw [List.pairwise_cons, List.forall_mem_cons]
  constructor
  · intro h
    obtain ⟨⟨hpos, hrest⟩, hhead, hpair⟩ := h
    exact ⟨hpos, hhead, hrest, hpair⟩
  · intro h
    obtain ⟨hpos, hhead, hrest, hpair⟩ := h
    exact ⟨⟨hpos, hrest⟩, hhead, hpair⟩

theorem Separated.offset_lt {span later : Span} {rest : List Span}
    (h : Separated (span :: rest)) (hmem : later ∈ rest) : span.offset < later.offset := by
  have hlt := (separated_cons.mp h).2.1 later hmem
  unfold Span.finish at hlt
  omega

/-- The spans behind the head of a separated list hold no byte up to the head's end. -/
theorem not_holds_tail {span : Span} {rest : List Span} {byte : Nat}
    (hsep : Separated (span :: rest)) (hle : byte ≤ span.finish) : ¬ Holds rest byte := by
  intro h
  obtain ⟨later, hmem, hbyte⟩ := h
  have hlater := (separated_cons.mp hsep).2.1 later hmem
  rw [Span.mem_iff] at hbyte
  omega

/-- Of two spans in a separated list, one ends before the other begins. -/
theorem Separated.apart {spans : List Span} (h : Separated spans) {a b : Span}
    (ha : a ∈ spans) (hb : b ∈ spans) :
    a = b ∨ a.finish < b.offset ∨ b.finish < a.offset := by
  induction spans with
  | nil => cases ha
  | cons head rest ih =>
    obtain ⟨-, hhead, hrest⟩ := separated_cons.mp h
    rcases List.mem_cons.mp ha with haeq | ha
    · rcases List.mem_cons.mp hb with hbeq | hb
      · exact .inl (haeq.trans hbeq.symm)
      · exact .inr (.inl (haeq ▸ hhead b hb))
    · rcases List.mem_cons.mp hb with hbeq | hb
      · exact .inr (.inr (hbeq ▸ hhead a ha))
      · exact ih hrest ha hb

/-- A separated list has no span twice. -/
theorem Separated.nodup {spans : List Span} (h : Separated spans) : spans.Nodup := by
  refine h.2.imp fun {a b} hlt heq => ?_
  subst heq
  unfold Span.finish at hlt
  omega

/-- Separated lists with the same spans are equal. -/
theorem Separated.eq_of_mem_iff {a b : List Span} (ha : Separated a) (hb : Separated b)
    (h : ∀ span, span ∈ a ↔ span ∈ b) : a = b := by
  -- nothing is listed twice, so one list permutes the other, and both ascend
  refine List.Perm.eq_of_pairwise ?_ ha.2 hb.2
    ((List.perm_ext_iff_of_nodup ha.nodup hb.nodup).mpr h)
  intro x y _ _ hxy hyx
  unfold Span.finish at hxy hyx
  omega

/-! ## §2. The exact twins. -/

/-- `carve?` with unbounded sums. -/
def carveExact? (length : Nat) : Nat → List Span → Option (Nat × List Span)
  | 0, _ => none
  | _ + 1, [] => none
  | probes + 1, span :: rest =>
    if span.length = length then some (span.offset, rest)
    else if length < span.length then
      some (span.offset, ⟨span.offset + length, span.length - length⟩ :: rest)
    else (carveExact? length probes rest).map fun (offset, left) => (offset, span :: left)

/-- `join` with unbounded sums. -/
def joinExact (span : Span) : List Span → List Span
  | [] => [span]
  | next :: rest =>
    if next.finish = span.offset then
      joinExact ⟨next.offset, next.length + span.length⟩ rest
    else if next.offset < span.offset then next :: joinExact span rest
    else if span.finish = next.offset then
      ⟨span.offset, span.length + next.length⟩ :: rest
    else span :: next :: rest

/-- `settle` with unbounded sums. -/
def settleExact (top : Nat) : List Span → Nat × List Span
  | [] => (top, [])
  | span :: rest =>
    match settleExact top rest with
    | (lowered, []) =>
      if span.finish = lowered then (span.offset, []) else (lowered, [span])
    | (lowered, kept) => (lowered, span :: kept)

theorem carve?_eq_carveExact? {length probes : Nat} {spans : List Span}
    (hfit : ∀ span ∈ spans, span.finish ≤ Word.maxValue) :
    carve? length probes spans = carveExact? length probes spans := by
  -- on the probes: each looks at one span more
  induction probes generalizing spans with
  | zero => rfl
  | succ probes ih =>
    cases spans with
    | nil => rfl
    | cons span rest =>
      rw [carve?, carveExact?, ih fun later hmem => hfit later (List.mem_cons_of_mem _ hmem)]
      split
      · rfl
      · split
        · next hlt =>
          -- the cut ends inside the span, so its end fits a word too
          have hspan := hfit span List.mem_cons_self
          unfold Span.finish at hspan
          rw [Word.add_of_le (by omega)]
        · rfl

theorem join_eq_joinExact {span : Span} {spans : List Span}
    (hspan : span.finish ≤ Word.maxValue)
    (hfit : ∀ other ∈ spans, other.finish ≤ Word.maxValue) :
    join span spans = joinExact span spans := by
  induction spans generalizing span with
  | nil => rfl
  | cons next rest ih =>
    have hnext := hfit next List.mem_cons_self
    have hrest : ∀ other ∈ rest, other.finish ≤ Word.maxValue :=
      fun other hmem => hfit other (List.mem_cons_of_mem _ hmem)
    rw [join, joinExact, Span.stop_eq_finish hnext, Span.stop_eq_finish hspan]
    by_cases hbefore : next.finish = span.offset
    · -- joined with the span before, the end stays where it was
      have hsum : (⟨next.offset, next.length + span.length⟩ : Span).finish = span.finish := by
        unfold Span.finish at hbefore ⊢
        show next.offset + (next.length + span.length) = span.offset + span.length
        omega
      have hword : next.length + span.length ≤ Word.maxValue := by
        unfold Span.finish at hsum hspan
        show _ ≤ _
        simp only at hsum
        omega
      rw [if_pos hbefore, if_pos hbefore, Word.add_of_le hword]
      exact ih (by rw [hsum]; exact hspan) hrest
    · rw [if_neg hbefore, if_neg hbefore, ih hspan hrest]
      split
      · rfl
      · split
        · next hafter =>
          -- joined with the span behind, it ends where that one does
          have hword : span.length + next.length ≤ Word.maxValue := by
            unfold Span.finish at hafter hnext
            omega
          rw [Word.add_of_le hword]
        · rfl

theorem settle_eq_settleExact {top : Nat} {spans : List Span}
    (hfit : ∀ span ∈ spans, span.finish ≤ Word.maxValue) :
    settle top spans = settleExact top spans := by
  induction spans with
  | nil => rfl
  | cons span rest ih =>
    have hrest := ih fun later hmem => hfit later (List.mem_cons_of_mem _ hmem)
    have hstop := Span.stop_eq_finish (hfit span List.mem_cons_self)
    -- a sum is only made to compare the span's end with the lowered top
    rw [settle, hrest, hstop]
    rfl

/-! ## §3. Carving. -/

/-- How a cut of a length comes about, where it lies, and what it leaves. -/
inductive Carved (length : Nat) : List Span → Nat → List Span → Prop
  /-- A span of just this length is used up. -/
  | whole {span : Span} {rest : List Span} (heq : span.length = length) :
      Carved length (span :: rest) span.offset rest
  /-- A longer span loses its front. -/
  | front {span : Span} {rest : List Span} (hlt : length < span.length) :
      Carved length (span :: rest) span.offset
        (⟨span.offset + length, span.length - length⟩ :: rest)
  /-- The cut lies further on. -/
  | later {span : Span} {rest left : List Span} {offset : Nat}
      (hrest : Carved length rest offset left) : Carved length (span :: rest) offset (span :: left)

theorem carved_of_carveExact? {length probes offset : Nat} {spans left : List Span}
    (h : carveExact? length probes spans = some (offset, left)) :
    Carved length spans offset left := by
  induction probes generalizing spans offset left with
  | zero => cases h
  | succ probes ih =>
    cases spans with
    | nil => cases h
    | cons head rest =>
      rw [carveExact?] at h
      split at h
      · next heq =>
        cases h
        exact .whole heq
      · split at h
        · next hlt =>
          cases h
          exact .front hlt
        · obtain ⟨⟨o, l⟩, hrec, heq⟩ := Option.map_eq_some_iff.mp h
          cases heq
          exact .later (ih hrec)

variable {length offset : Nat} {spans left : List Span}

/-- What is left are old spans, and at most one that lost its front. -/
theorem mem_of_carved (h : Carved length spans offset left) :
    ∀ span ∈ left, span ∈ spans
      ∨ ∃ old ∈ spans, length < old.length
          ∧ span = ⟨old.offset + length, old.length - length⟩ := by
  intro span hmem
  induction h with
  | whole => exact .inl (List.mem_cons_of_mem _ hmem)
  | @front head rest hlt =>
    rcases List.mem_cons.mp hmem with heq | hmem
    · exact .inr ⟨head, List.mem_cons_self, hlt, heq⟩
    · exact .inl (List.mem_cons_of_mem _ hmem)
  | later _ ih =>
    rcases List.mem_cons.mp hmem with heq | hmem
    · exact .inl (heq ▸ List.mem_cons_self)
    · rcases ih hmem with hold | ⟨old, hold, hcut⟩
      · exact .inl (List.mem_cons_of_mem _ hold)
      · exact .inr ⟨old, List.mem_cons_of_mem _ hold, hcut⟩

/-- The cut lies at the front of one of the spans. -/
theorem exists_of_carved (h : Carved length spans offset left) :
    ∃ span ∈ spans, span.offset = offset ∧ length ≤ span.length := by
  induction h with
  | @whole head rest heq => exact ⟨head, List.mem_cons_self, rfl, Nat.le_of_eq heq.symm⟩
  | @front head rest hlt => exact ⟨head, List.mem_cons_self, rfl, Nat.le_of_lt hlt⟩
  | later _ ih =>
    obtain ⟨span, hmem, hspan⟩ := ih
    exact ⟨span, List.mem_cons_of_mem _ hmem, hspan⟩

theorem separated_of_carved (hsep : Separated spans) (h : Carved length spans offset left) :
    Separated left := by
  induction h with
  | whole => exact (separated_cons.mp hsep).2.2
  | @front head rest hlt =>
    obtain ⟨hpos, hhead, hrest⟩ := separated_cons.mp hsep
    refine separated_cons.mpr ⟨by show 0 < head.length - length; omega, ?_, hrest⟩
    -- losing the front, the head still ends where it did
    intro later hmem
    have hlater := hhead later hmem
    unfold Span.finish at hlater ⊢
    show head.offset + length + (head.length - length) < later.offset
    omega
  | @later head rest left offset hcarved ih =>
    obtain ⟨hpos, hhead, hrest⟩ := separated_cons.mp hsep
    refine separated_cons.mpr ⟨hpos, ?_, ih hrest⟩
    intro later hmem
    rcases mem_of_carved hcarved later hmem with hold | ⟨old, hold, -, heq⟩
    · exact hhead later hold
    · have hlater := hhead old hold
      rw [heq]
      show head.finish < old.offset + length
      omega

/-- The bytes of the cut have left the list, and no others. -/
theorem holds_of_carved (hsep : Separated spans) (h : Carved length spans offset left)
    (byte : Nat) :
    Holds left byte ↔ Holds spans byte ∧ byte ∉ (⟨offset, length⟩ : Span) := by
  induction h with
  | @whole head rest heq =>
    have htail : byte ≤ head.finish → ¬ Holds rest byte := not_holds_tail hsep
    rw [holds_cons]
    simp only [Span.mem_iff, Span.finish] at htail ⊢
    constructor
    · intro hbyte
      exact ⟨.inr hbyte, fun hin => htail (by omega) hbyte⟩
    · intro hbyte
      obtain ⟨hin | hbyte, hout⟩ := hbyte
      · omega
      · exact hbyte
  | @front head rest hlt =>
    have htail : byte ≤ head.finish → ¬ Holds rest byte := not_holds_tail hsep
    rw [holds_cons, holds_cons]
    simp only [Span.mem_iff, Span.finish] at htail ⊢
    constructor
    · intro hbyte
      rcases hbyte with hin | hbyte
      · exact ⟨.inl (by omega), by omega⟩
      · exact ⟨.inr hbyte, fun hin => htail (by omega) hbyte⟩
    · intro hbyte
      obtain ⟨hin | hbyte, hout⟩ := hbyte
      · exact .inl (by omega)
      · exact .inr hbyte
  | @later head rest left offset hcarved ih =>
    -- the cut lies in a later span, so it takes nothing from the head
    obtain ⟨-, hhead, hrest⟩ := separated_cons.mp hsep
    obtain ⟨span, hmem, hoffset, -⟩ := exists_of_carved hcarved
    have hafter := hhead span hmem
    rw [holds_cons, holds_cons, ih hrest]
    simp only [Span.mem_iff, Span.finish] at hafter ⊢
    constructor
    · intro hbyte
      rcases hbyte with hin | ⟨hbyte, hout⟩
      · exact ⟨.inl hin, by omega⟩
      · exact ⟨.inr hbyte, hout⟩
    · intro hbyte
      obtain ⟨hin | hbyte, hout⟩ := hbyte
      · exact .inl hin
      · exact .inr ⟨hbyte, hout⟩

/-! ## §4. Joining. -/

/-- Where a span of the result begins and ends, an old span or the new one does. -/
theorem mem_of_joinExact {span : Span} {spans : List Span} :
    ∀ joined ∈ joinExact span spans,
      (joined.offset = span.offset ∨ ∃ old ∈ spans, joined.offset = old.offset)
        ∧ (joined.finish = span.finish ∨ ∃ old ∈ spans, joined.finish = old.finish) := by
  induction spans generalizing span with
  | nil =>
    intro joined hmem
    rw [joinExact, List.mem_singleton] at hmem
    subst hmem
    exact ⟨.inl rfl, .inl rfl⟩
  | cons next rest ih =>
    have hself : next ∈ next :: rest := List.mem_cons_self
    have hlift : ∀ {old}, old ∈ rest → old ∈ next :: rest := List.mem_cons_of_mem _
    intro joined hmem
    rw [joinExact] at hmem
    split at hmem
    · next hbefore =>
      -- joined with `next`, the span ends where it did and begins where `next` does
      obtain ⟨hbegin, hend⟩ := ih joined hmem
      have hsum : (⟨next.offset, next.length + span.length⟩ : Span).finish = span.finish := by
        unfold Span.finish at hbefore ⊢
        show next.offset + (next.length + span.length) = span.offset + span.length
        omega
      rw [hsum] at hend
      refine ⟨.inr ?_, hend.imp id fun ⟨old, hold, heq⟩ => ⟨old, hlift hold, heq⟩⟩
      rcases hbegin with heq | ⟨old, hold, heq⟩
      · exact ⟨next, hself, heq⟩
      · exact ⟨old, hlift hold, heq⟩
    · split at hmem
      · rcases List.mem_cons.mp hmem with rfl | hmem
        · exact ⟨.inr ⟨joined, hself, rfl⟩, .inr ⟨joined, hself, rfl⟩⟩
        · obtain ⟨hbegin, hend⟩ := ih joined hmem
          exact ⟨hbegin.imp id fun ⟨old, hold, heq⟩ => ⟨old, hlift hold, heq⟩,
            hend.imp id fun ⟨old, hold, heq⟩ => ⟨old, hlift hold, heq⟩⟩
      · split at hmem
        · next hafter =>
          -- joined with `next` the other way round
          rcases List.mem_cons.mp hmem with rfl | hmem
          · refine ⟨.inl rfl, .inr ⟨next, hself, ?_⟩⟩
            unfold Span.finish at hafter ⊢
            show span.offset + (span.length + next.length) = next.offset + next.length
            omega
          · exact ⟨.inr ⟨joined, hlift hmem, rfl⟩, .inr ⟨joined, hlift hmem, rfl⟩⟩
        · rcases List.mem_cons.mp hmem with rfl | hmem
          · exact ⟨.inl rfl, .inl rfl⟩
          · exact ⟨.inr ⟨joined, hmem, rfl⟩, .inr ⟨joined, hmem, rfl⟩⟩

theorem holds_joinExact {span : Span} {spans : List Span} (byte : Nat) :
    Holds (joinExact span spans) byte ↔ byte ∈ span ∨ Holds spans byte := by
  induction spans generalizing span with
  | nil => rw [joinExact, holds_cons]
  | cons next rest ih =>
    rw [joinExact]
    split
    · next hbefore =>
      rw [ih, holds_cons, ← or_assoc]
      -- two spans that touch hold together what they hold apart
      have hunion : byte ∈ (⟨next.offset, next.length + span.length⟩ : Span)
          ↔ byte ∈ span ∨ byte ∈ next := by
        unfold Span.finish at hbefore
        simp only [Span.mem_iff]
        omega
      rw [hunion]
    · split
      · rw [holds_cons, holds_cons, ih]
        exact or_left_comm
      · split
        · next hafter =>
          rw [holds_cons, holds_cons, ← or_assoc]
          have hunion : byte ∈ (⟨span.offset, span.length + next.length⟩ : Span)
              ↔ byte ∈ span ∨ byte ∈ next := by
            unfold Span.finish at hafter
            simp only [Span.mem_iff]
            omega
          rw [hunion]
        · rw [holds_cons]

/-- A span that shares no byte with a separated list can be joined to it. -/
theorem separated_joinExact {span : Span} {spans : List Span} (hsep : Separated spans)
    (hpos : 0 < span.length)
    (hapart : ∀ old ∈ spans, old.finish ≤ span.offset ∨ span.finish ≤ old.offset) :
    Separated (joinExact span spans) := by
  induction spans generalizing span with
  | nil =>
    rw [joinExact]
    exact separated_cons.mpr ⟨hpos, by simp, separated_nil⟩
  | cons next rest ih =>
    obtain ⟨hnext, hhead, hrest⟩ := separated_cons.mp hsep
    have hside := hapart next List.mem_cons_self
    rw [joinExact]
    split
    · next hbefore =>
      -- all later spans lie behind `next`, so behind the joined span
      refine ih hrest (by show 0 < next.length + span.length; omega) ?_
      intro old hold
      have hlater := hhead old hold
      have hpair := hapart old (List.mem_cons_of_mem _ hold)
      have hlen := hrest.1 old hold
      right
      unfold Span.finish at hbefore hlater hpair ⊢
      show next.offset + (next.length + span.length) ≤ old.offset
      omega
    · next hbefore =>
      split
      · next hlt =>
        have hrestApart : ∀ old ∈ rest, old.finish ≤ span.offset ∨ span.finish ≤ old.offset :=
          fun old hold => hapart old (List.mem_cons_of_mem _ hold)
        refine separated_cons.mpr ⟨hnext, ?_, ih hrest hpos hrestApart⟩
        -- behind `next`, every span begins where the new one or a later one does
        intro joined hmem
        rcases (mem_of_joinExact joined hmem).1 with heq | ⟨old, hold, heq⟩
        · unfold Span.finish at hbefore hside ⊢
          omega
        · rw [heq]
          exact hhead old hold
      · next hge =>
        split
        · next hafter =>
          -- the joined span ends where `next` did
          refine separated_cons.mpr ⟨by show 0 < span.length + next.length; omega, ?_, hrest⟩
          intro later hmem
          have hlater := hhead later hmem
          unfold Span.finish at hafter hlater ⊢
          show span.offset + (span.length + next.length) < later.offset
          omega
        · next hafter =>
          -- it touches nothing, so there is a gap before `next`
          refine separated_cons.mpr ⟨hpos, ?_, hsep⟩
          intro later hmem
          have hfirst : span.finish < next.offset := by
            unfold Span.finish at hafter hside ⊢
            omega
          rcases List.mem_cons.mp hmem with rfl | hmem
          · exact hfirst
          · have hlater := hhead later hmem
            unfold Span.finish at hfirst hlater ⊢
            omega

/-! ## §5. Settling. -/

/-- What is kept was there before. -/
theorem sublist_settleExact (top : Nat) (spans : List Span) :
    (settleExact top spans).2.Sublist spans := by
  -- on the list: the spans behind are settled before the head is looked at
  induction spans with
  | nil => exact .slnil
  | cons span rest ih =>
    rw [settleExact]
    split
    · next lowered heq =>
      split
      · exact List.nil_sublist _
      · exact List.Sublist.cons_cons _ (List.nil_sublist _)
    · next lowered kept hkept heq =>
      rw [heq] at ih
      exact List.Sublist.cons_cons _ ih

/-- The top stays or comes down to where a span began. -/
theorem settleExact_fst (top : Nat) (spans : List Span) :
    (settleExact top spans).1 = top ∨ ∃ span ∈ spans, (settleExact top spans).1 = span.offset := by
  induction spans with
  | nil => exact .inl rfl
  | cons span rest ih =>
    rw [settleExact]
    split
    · next lowered heq =>
      split
      · exact .inr ⟨span, List.mem_cons_self, rfl⟩
      · rw [heq] at ih
        exact ih.imp id fun ⟨old, hold, hoffset⟩ => ⟨old, List.mem_cons_of_mem _ hold, hoffset⟩
    · next lowered kept hkept heq =>
      rw [heq] at ih
      exact ih.imp id fun ⟨old, hold, hoffset⟩ => ⟨old, List.mem_cons_of_mem _ hold, hoffset⟩

theorem settleExact_fst_le {top : Nat} {spans : List Span}
    (hle : ∀ span ∈ spans, span.finish ≤ top) : (settleExact top spans).1 ≤ top := by
  rcases settleExact_fst top spans with heq | ⟨span, hmem, heq⟩
  · omega
  · have hspan := hle span hmem
    unfold Span.finish at hspan
    omega

/-- Every span that is kept ends below the top. -/
theorem finish_lt_of_mem_settleExact {top : Nat} {spans : List Span} (hsep : Separated spans)
    (hle : ∀ span ∈ spans, span.finish ≤ top) :
    ∀ span ∈ (settleExact top spans).2, span.finish < (settleExact top spans).1 := by
  induction spans with
  | nil => simp [settleExact]
  | cons span rest ih =>
    obtain ⟨hpos, hhead, hrest⟩ := separated_cons.mp hsep
    have hbelow := ih hrest fun later hmem => hle later (List.mem_cons_of_mem _ hmem)
    have hfst := settleExact_fst top rest
    have hspan := hle span List.mem_cons_self
    rw [settleExact]
    split
    · next lowered heq =>
      rw [heq] at hfst
      simp only at hfst
      split
      · simp
      · next hgap =>
        -- the lowered top is the old one or the start of a later span
        have hreach : span.finish ≤ lowered := by
          rcases hfst with hfst | ⟨later, hmem, hfst⟩
          · omega
          · have hlater := hhead later hmem
            omega
        intro kept hmem
        rw [List.mem_singleton] at hmem
        rw [hmem]
        show span.finish < lowered
        omega
    · next lowered kept hkept heq =>
      rw [heq] at hbelow
      intro left hmem
      rcases List.mem_cons.mp hmem with rfl | hmem
      · -- a span that is kept lies between this one and the lowered top
        obtain ⟨first, hfirst⟩ := List.exists_mem_of_ne_nil kept hkept
        have hsub := sublist_settleExact top rest
        rw [heq] at hsub
        have hlater := hhead first (hsub.subset hfirst)
        have hend := hbelow first hfirst
        simp only at hend
        unfold Span.finish at hend hlater ⊢
        show left.offset + left.length < lowered
        omega
      · exact hbelow left hmem

/-- Only bytes from the lowered top on have left the list. -/
theorem holds_settleExact {top : Nat} {spans : List Span}
    (hle : ∀ span ∈ spans, span.finish ≤ top) (byte : Nat) :
    Holds spans byte ↔
      Holds (settleExact top spans).2 byte ∨ (settleExact top spans).1 ≤ byte ∧ byte < top := by
  induction spans with
  | nil =>
    have hnil : ¬ Holds [] byte := holds_nil
    simp only [settleExact, hnil, false_or, false_iff]
    omega
  | cons span rest ih =>
    have hrest : ∀ later ∈ rest, later.finish ≤ top :=
      fun later hmem => hle later (List.mem_cons_of_mem _ hmem)
    have hlow := settleExact_fst_le hrest
    have hnil : ¬ Holds [] byte := holds_nil
    rw [settleExact, holds_cons, ih hrest]
    split
    · next lowered heq =>
      rw [heq] at hlow
      simp only at hlow
      split
      · next htouch =>
        -- the span reaches the lowered top, so its bytes are above the new one
        simp only [heq, hnil, false_or, Span.mem_iff]
        unfold Span.finish at htouch
        omega
      · rw [holds_cons, heq]
        simp only [hnil, false_or, or_false]
    · next lowered kept hkept heq => rw [heq, holds_cons, or_assoc]

theorem separated_settleExact (top : Nat) {spans : List Span} (hsep : Separated spans) :
    Separated (settleExact top spans).2 := by
  have hsub := sublist_settleExact top spans
  exact ⟨fun span hmem => hsep.1 span (hsub.subset hmem), hsep.2.sublist hsub⟩

end FreeSpans

end JitCache
