import SourceLayout.Text.Quoted

/-!
# Dates and times

A moment has two texts: the plain one of the calendar standard, and the constructor form that is
shown inside messages.
-/

namespace SourceLayout

structure Date where
  year : Nat
  month : Nat
  day : Nat
  deriving DecidableEq, Repr

structure ClockTime where
  hour : Nat
  minute : Nat
  second : Nat
  microsecond : Nat
  deriving DecidableEq, Repr

/-- The offset of a date with time is in minutes east. -/
inductive Moment where
  | date (day : Date)
  | time (clock : ClockTime)
  | dateTime (day : Date) (clock : ClockTime) (offset : Option Int)
  deriving DecidableEq, Repr

/-- A number padded with zeros to a width. -/
def padded (width n : Nat) : String :=
  let digits := Nat.toDigits 10 n
  String.ofList (List.replicate (width - digits.length) '0' ++ digits)

def Date.text (date : Date) : String :=
  padded 4 date.year ++ "-" ++ padded 2 date.month ++ "-" ++ padded 2 date.day

def ClockTime.text (time : ClockTime) : String :=
  padded 2 time.hour ++ ":" ++ padded 2 time.minute ++ ":" ++ padded 2 time.second ++
    if time.microsecond = 0 then "" else "." ++ padded 6 time.microsecond

def offsetText (minutes : Int) : String :=
  (if minutes < 0 then "-" else "+") ++ padded 2 (minutes.natAbs / 60) ++ ":" ++
    padded 2 (minutes.natAbs % 60)

def Moment.text : Moment → String
  | .date day => day.text
  | .time clock => clock.text
  | .dateTime day clock offset =>
      day.text ++ " " ++ clock.text ++ (offset.map offsetText).getD ""

def Date.arguments (date : Date) : List String :=
  [toString date.year, toString date.month, toString date.day]

/-- Seconds are left out when they and the fraction are zero, and a zero fraction is left out. -/
def ClockTime.arguments (time : ClockTime) : List String :=
  [toString time.hour, toString time.minute] ++
    if time.microsecond ≠ 0 then [toString time.second, toString time.microsecond]
    else if time.second ≠ 0 then [toString time.second]
    else []

/-- An offset west counts as whole days back and the seconds forward from there. -/
def zoneForm (minutes : Int) : String :=
  if minutes = 0 then "datetime.timezone.utc"
  else
    let seconds := toString ((minutes * 60) % 86400)
    let days := if minutes < 0 then "days=-1, " else ""
    "datetime.timezone(datetime.timedelta(" ++ days ++ "seconds=" ++ seconds ++ "))"

def Moment.form : Moment → String
  | .date day => "datetime.date(" ++ ", ".intercalate day.arguments ++ ")"
  | .time clock => "datetime.time(" ++ ", ".intercalate clock.arguments ++ ")"
  | .dateTime day clock offset =>
      let zone := (offset.map fun minutes => ["tzinfo=" ++ zoneForm minutes]).getD []
      "datetime.datetime(" ++ ", ".intercalate (day.arguments ++ clock.arguments ++ zone) ++ ")"

end SourceLayout
