import Weft.Cron.Constant

/-! The occurrences of a cron expression that are due in a window. -/

namespace Weft.Cron
open Weft.Js Weft.Lib

inductive CollectError where
  | maxOccurrences
  | occurrence (error : CronOccurrenceError)

/-- The loop, with how many occurrences it may still collect; without `maxOccurrences` they are not
counted. -/
def collectLoop (parsedExpression : ParsedCronExpression) (throughTimestamp : Int)
    (timeZone : TimeZone) : (fuel : Nat) → (remaining : Option Nat) → (nextOccurrence : Int) →
    Occurrence (List Int)
  | 0, _, _ => .ok []
  | fuel + 1, remaining, nextOccurrence =>
    if nextOccurrence ≤ throughTimestamp ∧ remaining ≠ some 0 then do
      let next ← getNextCronOccurrence parsedExpression nextOccurrence timeZone
      let dueOccurrences ← collectLoop parsedExpression throughTimestamp timeZone fuel
        (remaining.map Nat.pred) next
      return nextOccurrence :: dueOccurrences
    else .ok []

/-- The loop goes up by a millisecond at least. -/
def collectDueCronOccurrences (parsedExpression : ParsedCronExpression)
    (firstDueAt throughTimestamp : Int) (maxOccurrences : Option Int)
    (timeZone : TimeZone := getDefaultTimeZone) : Except CollectError (List Int) :=
  if ∃ m ∈ maxOccurrences, 2 ^ 53 - 1 < m ∨ m ≤ 0 then .error .maxOccurrences
  else (collectLoop parsedExpression throughTimestamp timeZone
    ((throughTimestamp - firstDueAt + 1).toNat + 1) (maxOccurrences.map Int.toNat)
    firstDueAt).mapError .occurrence

/-- An occurrence of the window, in whole seconds. -/
structure IsDue (parsed : ParsedCronExpression) (zone : TimeZone) (first through t : Int) :
    Prop where
  whole : 1000 ∣ t
  matched : Matches parsed (zone.clock t)
  inside : first ≤ t ∧ t ≤ through

variable {parsed : ParsedCronExpression} {zone : TimeZone} {offset first through : Int}

theorem HasRoom.earlier {through' : Int} (h : HasRoom through') (hstart : 0 ≤ through)
    (hle : through ≤ through') : HasRoom through := by
  refine ⟨?_, by have := h.2; omega⟩
  unfold firstCandidate
  omega

/-- What is due until later is due now, or due from the next occurrence on. -/
theorem NextOccurrence.isDue_iff {now next : Int} (h : NextOccurrence parsed zone now next)
    (hfirst : first ≤ now) (hnow : now ≤ through) (t : Int) : IsDue parsed zone first through t ↔
      IsDue parsed zone first now t ∨ IsDue parsed zone next through t := by
  have hafter := h.after
  constructor
  · rintro ⟨hwhole, hmatched, hle, hthrough⟩
    by_cases hdue : t ≤ now
    · exact .inl ⟨hwhole, hmatched, hle, hdue⟩
    · have hnext : next ≤ t := by
        by_contra hlt
        exact h.none_between t hwhole (by omega) (by omega) hmatched
      exact .inr ⟨hwhole, hmatched, hnext, hthrough⟩
  · rintro (⟨hwhole, hmatched, hle, hdue⟩ | ⟨hwhole, hmatched, hnext, hthrough⟩)
    · exact ⟨hwhole, hmatched, hle, hdue.trans hnow⟩
    · exact ⟨hwhole, hmatched, by omega, hthrough⟩

/-- From an occurrence on the loop collects what is due, or the first of it. -/
theorem collectLoop_constant (hwf : parsed.WellFormed) (hzone : IsConstant zone offset)
    (hroom : HasRoom through) {fuel : Nat} (remaining : Option Nat) (hwhole : 1000 ∣ first)
    (hmatched : Matches parsed (zone.clock first)) (hstart : 0 ≤ first)
    (hfuel : (through - first + 1).toNat < fuel) : ∃ due : List Int, due.Pairwise (· < ·) ∧
      (∀ t, t ∈ due ↔ IsDue parsed zone first through t) ∧
      collectLoop parsed through zone fuel remaining first = .ok (remaining.elim due due.take) := by
  induction fuel generalizing first remaining with
  | zero => cases hfuel
  | succ fuel ih =>
    rw [collectLoop]
    by_cases hthrough : first ≤ through
    · obtain ⟨next, hfound, hnext⟩ := hzone.exists_occurrence hwf (hroom.earlier hstart hthrough)
        hmatched.dateMatches
      have hafter := hnext.after
      obtain ⟨due, hsorted, hdue, hloop⟩ :=
        ih (remaining.map Nat.pred) hnext.whole hnext.matched (by omega) (by omega)
      refine ⟨first :: due, List.pairwise_cons.2 ⟨fun t ht => ?_, hsorted⟩, fun t => ?_, ?_⟩
      · exact hafter.trans_le ((hdue t).1 ht).inside.1
      · rw [List.mem_cons, hdue, hnext.isDue_iff le_rfl hthrough]
        refine or_congr_left ⟨?_, fun hnow => le_antisymm hnow.inside.2 hnow.inside.1⟩
        rintro rfl
        exact ⟨hwhole, hmatched, le_rfl, le_rfl⟩
      · simp only [hfound, bind, Except.bind, hloop]
        obtain _ | _ | n := remaining
        · exact if_pos ⟨hthrough, by simp⟩
        · exact if_neg fun hgo => hgo.2 rfl
        · exact if_pos ⟨hthrough, by simp⟩
    · refine ⟨[], .nil, fun t => ⟨fun ht => absurd ht List.not_mem_nil, fun ht => ?_⟩, ?_⟩
      · exact (hthrough (ht.inside.1.trans ht.inside.2)).elim
      · rw [if_neg fun hgo => hthrough hgo.1]
        cases remaining <;> simp

section

variable {expression : JsString} (hparsed : parseCronExpression expression = .ok parsed)
  (hzone : IsConstant zone offset) (hwhole : 1000 ∣ first)
  (hmatched : Matches parsed (zone.clock first)) (hstart : 0 ≤ first)

include hparsed hzone hwhole hmatched hstart

/-- On a clock that is never set the occurrences of a window are collected in order, up to the
cap. -/
theorem collectDueCronOccurrences_constant {cap : Option Int}
    (hcap : ∀ m ∈ cap, 0 < m ∧ m ≤ 2 ^ 53 - 1) (hroom : HasRoom through) :
    ∃ due : List Int, due.Pairwise (· < ·) ∧ (∀ t, t ∈ due ↔ IsDue parsed zone first through t) ∧
      collectDueCronOccurrences parsed first through cap zone =
        .ok ((cap.map Int.toNat).elim due due.take) := by
  obtain ⟨due, hsorted, hdue, hloop⟩ := collectLoop_constant
    (ParsedCronExpression.wellFormed hparsed) hzone hroom (cap.map Int.toNat) hwhole hmatched hstart
    (Nat.lt_succ_self _)
  refine ⟨due, hsorted, hdue, ?_⟩
  rw [collectDueCronOccurrences, if_neg, hloop]
  · rfl
  · rintro ⟨m, hm, hbad⟩
    have := hcap m hm
    omega

/-- Two windows lose no occurrence between them and collect none twice. -/
theorem collectDueCronOccurrences_windows {through' : Int} (hbegins : first ≤ through)
    (hends : through ≤ through') (hroom : HasRoom through') : ∃ earlier next later,
      collectDueCronOccurrences parsed first through none zone = .ok earlier ∧
      getNextCronOccurrence parsed through zone = .ok next ∧
      collectDueCronOccurrences parsed next through' none zone = .ok later ∧
      collectDueCronOccurrences parsed first through' none zone = .ok (earlier ++ later) := by
  have hwf := ParsedCronExpression.wellFormed hparsed
  have hthrough := hroom.earlier (hstart.trans hbegins) hends
  obtain ⟨next, hfound, hnext⟩ := hzone.exists_occurrence hwf hthrough hmatched.dateMatches
  have hafter := hnext.after
  obtain ⟨earlier, hearlier, hmem, hfirst⟩ := collectLoop_constant hwf hzone hthrough none hwhole
    hmatched hstart (Nat.lt_succ_self _)
  obtain ⟨later, hlater, hmem', hsecond⟩ := collectLoop_constant hwf hzone hroom none hnext.whole
    hnext.matched (by omega) (Nat.lt_succ_self _)
  obtain ⟨both, hboth, hmem'', hwindow⟩ := collectLoop_constant hwf hzone hroom none hwhole
    hmatched hstart (Nat.lt_succ_self _)
  obtain rfl : both = earlier ++ later := by
    refine hboth.eq_of_mem_iff (List.pairwise_append.2 ⟨hearlier, hlater, fun t ht t' ht' => ?_⟩)
      fun t => ?_
    · exact (((hmem t).1 ht).inside.2.trans_lt hafter).trans_le ((hmem' t').1 ht').inside.1
    · rw [List.mem_append, hmem, hmem', hmem'', hnext.isDue_iff hbegins hends]
  exact ⟨earlier, next, later, congrArg (Except.mapError _) hfirst, hfound,
    congrArg (Except.mapError _) hsecond, congrArg (Except.mapError _) hwindow⟩

end

theorem two_seconds_collected : ∃ due : List Int, due.Pairwise (· < ·) ∧
    (∀ t, t ∈ due ↔ IsDue everySecond getDefaultTimeZone 1000 3500 t) ∧
    collectDueCronOccurrences everySecond 1000 3500 (some 2) = .ok (due.take 2) :=
  collectDueCronOccurrences_constant parse_everySecond isConstant_utc (by decide)
    (by decide +kernel)
    (by decide) (by rintro m ⟨⟩; decide) (show HasRoom 3500 by decide)

theorem two_windows_collected : ∃ earlier next later,
    collectDueCronOccurrences everySecond 1000 2500 none = .ok earlier ∧
      getNextCronOccurrence everySecond 2500 = .ok next ∧
      collectDueCronOccurrences everySecond next 4500 none = .ok later ∧
      collectDueCronOccurrences everySecond 1000 4500 none = .ok (earlier ++ later) :=
  collectDueCronOccurrences_windows parse_everySecond isConstant_utc (by decide) (by decide +kernel)
    (by decide) (by decide) (by decide) (show HasRoom 4500 by decide)

end Weft.Cron
