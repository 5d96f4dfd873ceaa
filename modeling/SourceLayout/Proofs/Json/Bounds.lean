import Mathlib.Algebra.Group.Nat.Defs
import SourceLayout.Proofs.Literal.Mark
import SourceLayout.Proofs.Workspace.Settings

/-!
# Values that were read can be shown

A reader takes no whole number with too many digits and no lists or tables nested too deep, and what
it takes may be nested less deep than what is written. So every value that was read has a form, and
so has every value inside it.
-/

namespace SourceLayout

namespace Value

/-- No limit is exceeded by the value where lists and tables may be nested `room` deep or deeper. -/
def FitsIn (room : Nat) (value : Value) : Prop :=
  ∀ more, room ≤ more → value.exceeded? more = none

theorem FitsIn.mono {room wide : Nat} {value : Value} (h : value.FitsIn room)
    (hle : room ≤ wide) : value.FitsIn wide :=
  fun more hmore => h more (hle.trans hmore)

theorem listExceeded?_eq_none_iff {room : Nat} {values : List Value} :
    listExceeded? room values = none ↔ ∀ value ∈ values, value.exceeded? room = none := by
  induction values with
  | nil => simp [listExceeded?]
  | cons value values ih =>
      rw [listExceeded?, Option.or_eq_none_iff, ih, List.forall_mem_cons]

theorem entriesExceeded?_eq_none_iff {room : Nat} {entries : Entries} :
    entriesExceeded? room entries = none ↔
      ∀ entry ∈ entries, entry.2.exceeded? room = none := by
  induction entries with
  | nil => simp [entriesExceeded?]
  | cons entry entries ih =>
      obtain ⟨key, value⟩ := entry
      rw [entriesExceeded?, Option.or_eq_none_iff, ih, List.forall_mem_cons]

theorem fitsIn_list_iff {room : Nat} {values : List Value} :
    (Value.list values).FitsIn (room + 1) ↔ ∀ value ∈ values, value.FitsIn room := by
  constructor
  · intro h value hvalue more hmore
    have hlist := h (more + 1) (Nat.succ_le_succ hmore)
    rw [exceeded?, if_neg (Nat.succ_ne_zero more), Nat.add_sub_cancel,
      listExceeded?_eq_none_iff] at hlist
    exact hlist value hvalue
  · intro h more hmore
    rw [exceeded?, if_neg (by omega), listExceeded?_eq_none_iff]
    exact fun value hvalue => h value hvalue (more - 1) (by omega)

theorem fitsIn_table_iff {room : Nat} {entries : Entries} :
    (Value.table entries).FitsIn (room + 1) ↔ ∀ entry ∈ entries, entry.2.FitsIn room := by
  constructor
  · intro h entry hentry more hmore
    have htable := h (more + 1) (Nat.succ_le_succ hmore)
    rw [exceeded?, if_neg (Nat.succ_ne_zero more), Nat.add_sub_cancel,
      entriesExceeded?_eq_none_iff] at htable
    exact htable entry hentry
  · intro h more hmore
    rw [exceeded?, if_neg (by omega), entriesExceeded?_eq_none_iff]
    exact fun entry hentry => h entry hentry (more - 1) (by omega)

theorem fitsIn_int {value : Int} (hvalue : value.natAbs < 10 ^ digitLimit) (room : Nat) :
    (Value.int value).FitsIn room := by
  intro more _
  rw [exceeded?, Nat.pow_eq, if_neg (Nat.not_le.mpr hvalue)]

theorem fitsIn_float (value : Binary) (room : Nat) : (Value.float value).FitsIn room :=
  fun _ _ => by simp [exceeded?]

theorem fitsIn_text (value : Spelling) (room : Nat) : (Value.text value).FitsIn room :=
  fun _ _ => by simp [exceeded?]

theorem form?_of_fitsIn [Machine] {value : Value} (h : value.FitsIn Machine.writtenDepth) :
    value.form? = .ok value.form := by
  rw [form?, h Machine.writtenDepth le_rfl]

theorem exists_spelled?_of_fitsIn [Machine] {value : Value}
    (h : value.FitsIn Machine.writtenDepth) : ∃ spelled, value.spelled? = .ok spelled := by
  unfold spelled?
  split
  next => exact ⟨_, rfl⟩
  next => exact ⟨_, rfl⟩
  next => exact ⟨.ofString value.form, by rw [form?_of_fitsIn h]; rfl⟩

end Value

/-! ### Numbers -/

theorem digitValue?_lt {c : Char} {digit : Nat} (hdigit : digitValue? c = some digit) :
    digit < 10 := by
  obtain ⟨start, hfound, rfl⟩ := Option.map_eq_some_iff.mp hdigit
  have hrange := List.find?_some hfound
  simp only [Bool.and_eq_true, decide_eq_true_eq] at hrange
  omega

theorem decimalValue_lt (digits : List Char) : decimalValue digits < 10 ^ digits.length := by
  induction digits using List.reverseRecOn with
  | nil => simp [decimalValue]
  | append_singleton digits c ih =>
      have hdigit : (digitValue? c).getD 0 < 10 := by
        cases hc : digitValue? c with
        | none => simp
        | some digit => exact digitValue?_lt hc
      rw [decimalValue_append, List.length_append, List.length_singleton, Nat.pow_succ]
      omega

namespace Json

theorem fitsIn_of_number {negative : Bool} {whole fraction : Text} {exponent : Option Int}
    {value : Value} (hnumber : number negative whole fraction exponent = .ok value) (room : Nat) :
    value.FitsIn room := by
  rw [number] at hnumber
  split at hnumber
  next =>
      split at hnumber
      next => cases hnumber
      next hlength =>
          cases hnumber
          refine Value.fitsIn_int ?_ room
          have hvalue : decimalValue whole < 10 ^ digitLimit :=
            (decimalValue_lt whole).trans_le
              (Nat.pow_le_pow_right (by decide) (Nat.le_of_not_lt hlength))
          split
          next => rwa [Int.natAbs_neg, Int.natAbs_natCast]
          next => rwa [Int.natAbs_natCast]
  next =>
      cases hnumber
      exact Value.fitsIn_float _ room

theorem exists_number_of_number? {text rest : Text} {result : Except ReadError Value}
    (hnumber : number? text = some (result, rest)) :
    ∃ negative whole fraction exponent, result = number negative whole fraction exponent := by
  unfold number? at hnumber
  dsimp only at hnumber
  split at hnumber
  all_goals
    obtain ⟨whole, _, hnumber⟩ := Option.bind_eq_some_iff.mp hnumber
    split at hnumber <;> cases hnumber <;> exact ⟨_, _, _, _, rfl⟩

theorem fitsIn_of_plainScalar {text rest : Text} {value : Value}
    (hscalar : plainScalar text = .ok (value, rest)) (room : Nat) : value.FitsIn room := by
  rw [plainScalar] at hscalar
  split at hscalar
  next found hword =>
      cases hscalar
      obtain ⟨⟨word, own⟩, hmem, hprefix⟩ := List.exists_of_findSome?_eq_some hword
      dsimp only at hprefix
      split at hprefix
      next =>
          cases hprefix
          simp only [words, List.mem_cons, Prod.mk.injEq, List.not_mem_nil, or_false] at hmem
          rcases hmem with ⟨_, rfl⟩ | ⟨_, rfl⟩ | ⟨_, rfl⟩ | ⟨_, rfl⟩ | ⟨_, rfl⟩ | ⟨_, rfl⟩ <;>
            intro more _ <;> simp [Value.exceeded?]
      next => cases hprefix
  next =>
      obtain ⟨⟨result, after⟩, hnumber, hscalar⟩ := exists_of_bind_eq_ok hscalar
      obtain ⟨own, hresult, hscalar⟩ := exists_of_bind_eq_ok hscalar
      cases hscalar
      cases hsome : number? text with
      | none => rw [hsome] at hnumber; cases hnumber
      | some found =>
          rw [hsome] at hnumber
          cases hnumber
          obtain ⟨_, _, _, _, rfl⟩ := exists_number_of_number? hsome
          exact fitsIn_of_number hresult room

/-! ### Lists and tables -/

/-- What the readers with this fuel take fits in the room that they are given. -/
structure ReadsFit (fuel : Nat) : Prop where
  value : ∀ {room text value rest}, Json.value room fuel text = .ok (value, rest) →
    value.FitsIn room
  elements : ∀ {room text values rest}, elements room fuel text = .ok (values, rest) →
    ∀ value ∈ values, value.FitsIn room
  entries : ∀ {room before text all rest}, (∀ entry ∈ before, entry.2.FitsIn room) →
    entries room fuel before text = .ok (all, rest) → ∀ entry ∈ all, entry.2.FitsIn room

section

variable {fuel room : Nat} {text rest : Text}

/-- Below a list or table there is one level less. -/
theorem ReadsFit.value_succ (h : ReadsFit fuel) {value : Value}
    (hread : Json.value room (fuel + 1) text = .ok (value, rest)) : value.FitsIn room := by
  unfold Json.value at hread
  split at hread
  next =>
      obtain ⟨_, _, hread⟩ := exists_of_bind_eq_ok hread
      cases hread
      exact Value.fitsIn_text _ room
  next =>
      split at hread
      next => cases hread
      next hroom =>
          obtain ⟨room, rfl⟩ := Nat.exists_eq_succ_of_ne_zero hroom
          split at hread
          next =>
              cases hread
              exact Value.fitsIn_list_iff.mpr (by simp)
          next =>
              obtain ⟨_, hlist, hread⟩ := exists_of_bind_eq_ok hread
              cases hread
              exact Value.fitsIn_list_iff.mpr (h.elements hlist)
  next =>
      split at hread
      next => cases hread
      next hroom =>
          obtain ⟨room, rfl⟩ := Nat.exists_eq_succ_of_ne_zero hroom
          split at hread
          next =>
              cases hread
              exact Value.fitsIn_table_iff.mpr (by simp)
          next =>
              obtain ⟨_, htable, hread⟩ := exists_of_bind_eq_ok hread
              cases hread
              exact Value.fitsIn_table_iff.mpr (h.entries (by simp) htable)
  next => exact fitsIn_of_plainScalar hread room

theorem ReadsFit.elements_succ (h : ReadsFit fuel) {values : List Value}
    (hread : Json.elements room (fuel + 1) text = .ok (values, rest)) :
    ∀ value ∈ values, value.FitsIn room := by
  rw [Json.elements] at hread
  obtain ⟨⟨first, after⟩, hfirst, hread⟩ := exists_of_bind_eq_ok hread
  dsimp only at hread
  split at hread
  next =>
      obtain ⟨_, hothers, hread⟩ := exists_of_bind_eq_ok hread
      cases hread
      exact List.forall_mem_cons.mpr ⟨h.value hfirst, h.elements hothers⟩
  next =>
      cases hread
      exact List.forall_mem_singleton.mpr (h.value hfirst)
  next => cases hread

theorem ReadsFit.entries_succ (h : ReadsFit fuel) {before all : Entries}
    (hbefore : ∀ entry ∈ before, entry.2.FitsIn room)
    (hread : Json.entries room (fuel + 1) before text = .ok (all, rest)) :
    ∀ entry ∈ all, entry.2.FitsIn room := by
  unfold Json.entries at hread
  split at hread
  next =>
      obtain ⟨⟨key, after⟩, _, hread⟩ := exists_of_bind_eq_ok hread
      dsimp only at hread
      split at hread
      next =>
          obtain ⟨⟨entry, after⟩, hentry, hread⟩ := exists_of_bind_eq_ok hread
          have hall : ∀ other ∈ putEntry key entry before, other.2.FitsIn room := by
            intro other hother
            rcases mem_putEntry hother with rfl | hother
            · exact h.value hentry
            · exact hbefore other hother
          dsimp only at hread
          split at hread
          next => exact h.entries hall hread
          next =>
              cases hread
              exact hall
          next => cases hread
      next => cases hread
  next => cases hread

end

theorem readsFit (fuel : Nat) : ReadsFit fuel := by
  induction fuel with
  | zero => refine ⟨fun hread => ?_, fun hread => ?_, fun _ hread => ?_⟩ <;> cases hread
  | succ fuel ih => exact ⟨ih.value_succ, ih.elements_succ, ih.entries_succ⟩

/-- A value that was read has a form wherever it is shown. -/
theorem fitsIn_read [Machine] {text : Text} {value : Value} (hread : read text = .ok value) :
    value.FitsIn Machine.jsonDepth := by
  rw [read] at hread
  obtain ⟨⟨own, rest⟩, hvalue, hread⟩ := exists_of_bind_eq_ok hread
  dsimp only at hread
  split at hread
  next =>
      cases hread
      exact (readsFit _).value hvalue
  next => cases hread

end Json

end SourceLayout
