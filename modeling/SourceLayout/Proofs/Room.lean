import SourceLayout.Format
import SourceLayout.Proofs.Layout.Structure

/-!
# Room for a formatted text

A machine formats a text as the formatter does, or not at all. It does so exactly if there is room
for every line with its indentation, and then for all of them in one text.
-/

namespace SourceLayout

open Layout (Slot)
open Literal (RestoreError)

variable {family : Family} {language : Option Text} {unit : IndentUnit}

/-! ### Lengths of lines -/

theorem IndentUnit.length_levels (unit : IndentUnit) (count : Nat) :
    (unit.levels count).length = count * unit.length := by
  simp [levels, IndentUnit.length, Nat.mul_assoc]

theorem Layout.Slot.length_line (slot : Slot) :
    (slot.line family unit).length = slot.length family unit := by
  rw [line, indented, List.length_append, List.length_append, IndentUnit.length_levels]
  rfl

/-- The levels of a line are a part of it. -/
theorem Layout.Slot.levels_le_length (slot : Slot) :
    slot.level * unit.length ≤ slot.length family unit := by
  rw [length, Nat.add_assoc]
  exact Nat.le_add_right ..

/-! ### Kinds of failures -/

/-- A failure that is reported to nobody. -/
def Failure.Unexplained (failure : Failure) : Prop :=
  ∀ diagnostic, failure ≠ .reported diagnostic

/-- A failure for want of room: something is too long to be held, or nested too deeply. -/
def Failure.IsLimit : Failure → Prop
  | .tooLong _ | .outOfMemory | .beyond _ => True
  | .reported _ | .restore _ => False

theorem Failure.IsLimit.unexplained {failure : Failure} (h : failure.IsLimit) :
    failure.Unexplained := by
  rintro diagnostic rfl
  exact h

/-- Results whose failures are all of a kind. -/
def FailsOnly {α : Type} (kind : Failure → Prop) (result : Except Failure α) : Prop :=
  ∀ failure, result = .error failure → kind failure

namespace FailsOnly

variable {α β : Type} {kind : Failure → Prop} {result : Except Failure α}

theorem ok (a : α) : FailsOnly kind (.ok a) := by
  simp [FailsOnly]

theorem imp {other : Failure → Prop} (hkind : ∀ failure, kind failure → other failure)
    (hresult : FailsOnly kind result) : FailsOnly other result :=
  fun failure hfailure => hkind failure (hresult failure hfailure)

/-- What can only fail for want of room is never reported. -/
theorem unexplained (hresult : FailsOnly Failure.IsLimit result) :
    FailsOnly Failure.Unexplained result :=
  hresult.imp fun _ => Failure.IsLimit.unexplained

theorem bind {next : α → Except Failure β} (hresult : FailsOnly kind result)
    (hnext : ∀ a, FailsOnly kind (next a)) : FailsOnly kind (result >>= next) := by
  intro failure hfailure
  cases result with
  | error own =>
      cases hfailure
      exact hresult failure rfl
  | ok a => exact hnext a failure hfailure

theorem map (hresult : FailsOnly kind result) (f : α → β) : FailsOnly kind (result.map f) := by
  intro failure hfailure
  cases result with
  | error own =>
      cases hfailure
      exact hresult failure rfl
  | ok a => cases hfailure

theorem mapM {step : α → Except Failure β} {as : List α}
    (hstep : ∀ a ∈ as, FailsOnly kind (step a)) : FailsOnly kind (as.mapM step) := by
  induction as with
  | nil => exact ok []
  | cons a as ih =>
      obtain ⟨hfirst, hothers⟩ := List.forall_mem_cons.mp hstep
      rw [List.mapM_cons]
      exact hfirst.bind fun first => (ih hothers).bind fun rest => ok (first :: rest)

end FailsOnly

/-- Every line that was written was ready to be. -/
theorem Layout.exists_of_write {slots : List (Except RestoreError Slot)} {laid : List Text}
    (hlaid : write family unit slots = .ok laid) {slot : Except RestoreError Slot}
    (hslot : slot ∈ slots) : ∃ ready, slot = .ok ready ∧ ready.line family unit ∈ laid := by
  rw [write] at hlaid
  induction slots generalizing laid with
  | nil => cases hslot
  | cons first rest ih =>
      obtain ⟨line, others, hline, hothers, rfl⟩ := mapM_cons_eq_ok.mp hlaid
      rcases List.mem_cons.mp hslot with rfl | hrest
      · obtain ⟨ready, rfl, rfl⟩ := exists_of_map_eq_ok hline
        exact ⟨ready, rfl, List.mem_cons_self⟩
      · obtain ⟨ready, hready, hmem⟩ := ih hothers hrest
        exact ⟨ready, hready, List.mem_cons_of_mem _ hmem⟩

section

variable [Machine]

/-! ### Reservations -/

/-- Whether a text of a length can be held. -/
def Holds (length : Nat) : Prop :=
  length ≤ Options.addressLimit ∧ length ≤ Machine.memory

theorem Holds.mono {length more : Nat} (h : Holds more) (hle : length ≤ more) : Holds length :=
  ⟨Nat.le_trans hle h.1, Nat.le_trans hle h.2⟩

theorem reserve_of_holds {length : Nat} (h : Holds length) (part : Part) :
    Options.reserve part length = .ok () := by
  rw [Options.reserve, if_neg (Nat.not_lt.mpr h.1), if_neg (Nat.not_lt.mpr h.2)]

theorem reserve_of_not_holds {length : Nat} (h : ¬Holds length) (part : Part) :
    Options.reserve part length = .error (.tooLong part) ∨
      Options.reserve part length = .error .outOfMemory := by
  rw [Options.reserve]
  split
  next => exact .inl rfl
  next haddress =>
      split
      next => exact .inr rfl
      next hmemory => exact absurd ⟨Nat.not_lt.mp haddress, Nat.not_lt.mp hmemory⟩ h

/-- What comes after a reservation comes only if there is room. -/
theorem reserve_bind_eq_ok_iff {α : Type} {part : Part} {length : Nat} {next : Except Failure α}
    {a : α} :
    (Options.reserve part length >>= fun _ => next) = .ok a ↔ Holds length ∧ next = .ok a := by
  by_cases h : Holds length
  · rw [reserve_of_holds h]
    exact (and_iff_right h).symm
  · rcases reserve_of_not_holds h part with hreserve | hreserve <;> rw [hreserve] <;>
      simp [bind, Except.bind, h]

theorem reserve_map_eq_ok_iff {α : Type} {part : Part} {length : Nat} {own a : α} :
    (Options.reserve part length).map (fun _ => own) = .ok a ↔ Holds length ∧ own = a := by
  by_cases h : Holds length
  · simp [reserve_of_holds h, h, Except.map]
  · rcases reserve_of_not_holds h part with hreserve | hreserve <;> simp [hreserve, h, Except.map]

theorem isLimit_reserve (part : Part) (length : Nat) :
    FailsOnly Failure.IsLimit (Options.reserve part length) := by
  intro failure hfailure
  rw [Options.reserve] at hfailure
  split at hfailure
  next => cases hfailure; trivial
  next =>
      split at hfailure
      next => cases hfailure; trivial
      next => cases hfailure

/-! ### Lines -/

namespace Layout

/-- How one line is written on a machine. -/
def writeLine (family : Family) (unit : IndentUnit) (slot : Except RestoreError Slot) :
    Except Failure Text := do
  let slot ← slot.mapError Failure.restore
  Options.reserve .indentation (slot.level * unit.length)
  Options.reserve .line (slot.length family unit)
  return slot.line family unit

theorem writeLine_eq_ok_iff {slot : Except RestoreError Slot} {line : Text} :
    writeLine family unit slot = .ok line ↔
      slot.map (Slot.line family unit) = .ok line ∧ Holds line.length := by
  cases slot with
  | error error => simp [writeLine, Except.mapError, Except.map, bind, Except.bind]
  | ok slot =>
      have hwrite : writeLine family unit (.ok slot) = .ok line ↔
          Holds (slot.level * unit.length) ∧ Holds (slot.length family unit) ∧
            slot.line family unit = line := by
        rw [← Except.ok.injEq (slot.line family unit) line, ← reserve_bind_eq_ok_iff,
          ← reserve_bind_eq_ok_iff]
        rfl
      rw [hwrite]
      constructor
      · rintro ⟨_, hline, rfl⟩
        exact ⟨rfl, slot.length_line ▸ hline⟩
      · rintro ⟨hline, hholds⟩
        cases hline
        rw [Slot.length_line] at hholds
        exact ⟨hholds.mono slot.levels_le_length, hholds, rfl⟩

theorem isLimit_writeLine (slot : Slot) :
    FailsOnly Failure.IsLimit (writeLine family unit (.ok slot)) :=
  (isLimit_reserve .indentation _).bind fun _ =>
    (isLimit_reserve .line _).bind fun _ => .ok (slot.line family unit)

theorem unexplained_writeLine (slot : Except RestoreError Slot) :
    FailsOnly Failure.Unexplained (writeLine family unit slot) := by
  cases slot with
  | error error =>
      intro failure hfailure diagnostic hreported
      cases hfailure
      cases hreported
  | ok slot => exact (isLimit_writeLine slot).unexplained

/-- The lines of a document are written if each of them can be held. -/
theorem writeWithin_eq_ok_iff {slots : List (Except RestoreError Slot)} {laid : List Text} :
    writeWithin family unit slots = .ok laid ↔
      write family unit slots = .ok laid ∧ ∀ line ∈ laid, Holds line.length := by
  change slots.mapM (writeLine family unit) = .ok laid ↔ _
  rw [write]
  induction slots generalizing laid with
  | nil =>
      simp only [List.mapM_nil, pure, Except.pure, Except.ok.injEq, iff_self_and]
      rintro rfl
      exact List.forall_mem_nil _
  | cons slot slots ih =>
      rw [mapM_cons_eq_ok, mapM_cons_eq_ok]
      constructor
      · rintro ⟨first, rest, hfirst, hrest, rfl⟩
        obtain ⟨hline, hholds⟩ := writeLine_eq_ok_iff.mp hfirst
        obtain ⟨hlines, hothers⟩ := ih.mp hrest
        exact ⟨⟨first, rest, hline, hlines, rfl⟩, List.forall_mem_cons.mpr ⟨hholds, hothers⟩⟩
      · rintro ⟨⟨first, rest, hline, hlines, rfl⟩, hholds⟩
        obtain ⟨hfirst, hothers⟩ := List.forall_mem_cons.mp hholds
        exact ⟨first, rest, writeLine_eq_ok_iff.mpr ⟨hline, hfirst⟩,
          ih.mpr ⟨hlines, hothers⟩, rfl⟩

/-- Whether there is room for a document once its lines are indented. -/
def Fits (family : Family) (language : Option Text) (unit : IndentUnit) (lines : List Text) :
    Prop :=
  ∀ laid, indent family language unit lines = .ok laid →
    (∀ line ∈ laid, Holds line.length) ∧
      Holds (Text.ofLines (settle family language laid)).length

/-- Every line has room for its levels. -/
theorem Fits.levels {lines : List Text} (h : Fits family language unit lines) {laid : List Text}
    (hlaid : indent family language unit lines = .ok laid) {slot : Slot}
    (hslot : .ok slot ∈ slots family language lines) : Holds (slot.level * unit.length) := by
  obtain ⟨ready, hready, hmem⟩ := exists_of_write (indent_eq_write lines ▸ hlaid) hslot
  cases hready
  have hline := (h laid hlaid).1 _ hmem
  rw [Slot.length_line] at hline
  exact hline.mono slot.levels_le_length

end Layout

/-! ### Texts -/

variable {text out : Text}

theorem formatWithin_of_none (hfamily : Language.family? (language.getD []) = none) :
    formatWithin language unit text = .error (unsupportedLanguage language) := by
  rw [formatWithin, hfamily]

/-- A machine formats what the formatter does, as far as there is room for it. -/
theorem formatWithin_eq_ok_iff (hfamily : Language.family? (language.getD []) = some family) :
    formatWithin language unit text = .ok out ↔
      format language unit text = .ok out ∧
        Layout.Fits family (some (Language.normalize (language.getD []))) unit text.lines := by
  rw [formatWithin, format, hfamily]
  dsimp only
  rw [Layout.document, Layout.indent_eq_write]
  rw [bind_eq_ok_iff]
  simp only [Layout.writeWithin_eq_ok_iff, reserve_bind_eq_ok_iff, Layout.Fits,
    Layout.indent_eq_write]
  cases Layout.write family unit _ with
  | error error => simp [Except.map]
  | ok laid => simp [Except.map, pure, Except.pure, and_assoc, and_comm, and_left_comm]

theorem unexplained_formatWithin (hfamily : Language.family? (language.getD []) = some family) :
    FailsOnly Failure.Unexplained (formatWithin language unit text) := by
  rw [formatWithin, hfamily]
  refine FailsOnly.bind (.mapM fun slot _ => Layout.unexplained_writeLine slot) fun _ => ?_
  exact (isLimit_reserve .document _).unexplained.bind fun _ => .ok _

/-- If the lines can be laid out, formatting fails for want of room only. -/
theorem isLimit_formatWithin (hfamily : Language.family? (language.getD []) = some family)
    {laid : List Text} (hlaid : Layout.indent family
      (some (Language.normalize (language.getD []))) unit text.lines = .ok laid) :
    FailsOnly Failure.IsLimit (formatWithin language unit text) := by
  rw [formatWithin, hfamily]
  rw [Layout.indent_eq_write] at hlaid
  refine FailsOnly.bind (.mapM fun slot hslot => ?_) fun _ =>
    (isLimit_reserve .document _).bind fun _ => .ok _
  obtain ⟨ready, rfl, _⟩ := Layout.exists_of_write hlaid hslot
  exact Layout.isLimit_writeLine ready

end

end SourceLayout
