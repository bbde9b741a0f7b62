import WordMachine.Text.Numeral

/-!
# Messages

A message is a template and its arguments. In the template `%v` stands for the next argument in its
usual form, `%d` for an integer, and `%x` for an integer or the bytes of a text in hexadecimal; a
number between the percent sign and the letter is a least width, filled with zeros if it starts with
one. Integers in their usual form have their digits in groups of three, by the custom of a locale.
A template that does not fit its arguments still gives a text, which shows what did not fit.
-/

namespace WordMachine

/-- An argument of a message. -/
inductive Message.Arg where
  | int (i : Int)
  | text (t : Text)
  | list (ts : List Text)

/-- The custom by which messages show numbers. -/
structure Locale where
  /-- Stands between groups of three digits. -/
  groupMark : UInt8

namespace Locale

/-- American English groups digits with commas. -/
def english : Locale := ⟨Text.byte ','⟩

/-- German groups digits with points. -/
def german : Locale := ⟨Text.byte '.'⟩

end Locale

namespace Message

/-! ## Templates -/

/-- The form in which a directive asks for its argument. -/
inductive Verb where
  | usual
  | number
  | hex
  | unknown (letter : UInt8)

namespace Verb

/-- The verb that the letter `b` stands for. -/
def ofLetter (b : UInt8) : Verb :=
  if b == Text.byte 'v' then .usual
  else if b == Text.byte 'd' then .number
  else if b == Text.byte 'x' then .hex
  else .unknown b

/-- The letter of a verb. -/
def letter : Verb → UInt8
  | .usual => Text.byte 'v'
  | .number => Text.byte 'd'
  | .hex => Text.byte 'x'
  | .unknown b => b

end Verb

/-- The room that a directive gives to its argument. -/
structure Room where
  zeroFill : Bool := false
  width : Nat := 0

/-- A part of a template. -/
inductive Part where
  | literal (b : UInt8)
  | directive (room : Room) (verb : Verb)
  /-- A percent sign that no letter follows. -/
  | unfinished

/-- Does the part take an argument? -/
def Part.takesArg : Part → Bool
  | .directive _ _ => true
  | _ => false

/-- The parts of a template; the room is that of the directive that has begun, if one has. -/
def parts : Option Room → Text → List Part
  | none, [] => []
  | some _, [] => [.unfinished]
  | none, b :: t =>
    if b == Text.byte '%' then parts (some {}) t else .literal b :: parts none t
  | some room, b :: t =>
    if b == Text.byte '0' && room.width == 0 then parts (some { room with zeroFill := true }) t
    else if Text.isDigit b then
      parts (some { room with width := room.width * 10 + Text.digitValue b }) t
    else if b == Text.byte '%' then .literal b :: parts none t
    else .directive room (.ofLetter b) :: parts none t

/-! ## Arguments -/

/-- Fills the text `t` on its left to the width of the room. -/
def Room.fill (room : Room) (t : Text) : Text :=
  Text.padLeft room.width (Text.byte (if room.zeroFill then '0' else ' ')) t

/-- An argument `shown` with the name of its `kind`. -/
def named (kind shown : Text) : Text :=
  kind ++ "=" ++ shown

/-- What stands for an argument that has no form of the `verb`. -/
def misfit (verb : Verb) (kind shown : Text) : Text :=
  "%!" ++ verb.letter :: "(" ++ named kind shown ++ ")"

/-- The kind of an argument. -/
def Arg.kind : Arg → Text
  | .int _ => "int64"
  | .text _ => "string"
  | .list _ => "[]string"

/-- The integer `i` in the form of a verb. -/
def showInt (locale : Locale) (room : Room) (verb : Verb) (i : Int) : Text :=
  let usual := room.fill (Text.grouped locale.groupMark i)
  match verb with
  | .usual | .number => usual
  | .hex => if room.zeroFill then Text.paddedHex room.width i else room.fill (Text.paddedHex 0 i)
  | .unknown _ => misfit verb (Arg.kind (.int i)) usual

/-- The text `t` in the form of a verb. -/
def showText (room : Room) (verb : Verb) (t : Text) : Text :=
  match verb with
  | .usual => room.fill t
  | .hex => room.fill (Text.hexBytes t)
  | .number | .unknown _ => misfit verb (Arg.kind (.text t)) (room.fill t)

/-- An argument in the form of a verb; a list has each of its texts in that form. -/
def showArg (locale : Locale) (room : Room) (verb : Verb) : Arg → Text
  | .int i => showInt locale room verb i
  | .text t => showText room verb t
  | .list ts => "[" ++ Text.join " " (ts.map (showText room verb)) ++ "]"

/-- The parts of a template with the arguments in their places; what has no argument is shown as
missing. -/
def fillIn (locale : Locale) : List Part → List Arg → Text
  | [], _ => []
  | .literal b :: ps, args => b :: fillIn locale ps args
  | .unfinished :: ps, args => "%!(NOVERB)" ++ fillIn locale ps args
  | .directive _ verb :: ps, [] => "%!" ++ verb.letter :: "(MISSING)" ++ fillIn locale ps []
  | .directive room verb :: ps, arg :: args => showArg locale room verb arg ++ fillIn locale ps args

/-- The arguments that the parts `ps` leave over. A template that takes none at all may leave out
all of them. -/
def leftOver (ps : List Part) (args : List Arg) : List Arg :=
  if ps.any Part.takesArg then args.drop (ps.countP Part.takesArg) else []

/-- What stands after a message for the arguments that are left over. -/
def showLeftOver (locale : Locale) : List Arg → Text
  | [] => []
  | args =>
    "%!(EXTRA " ++
      Text.join ", " (args.map fun a => named a.kind (showArg locale {} .usual a)) ++ ")"

end Message

/-- The text of a message: the `template` with `args` in the places of its directives, by the custom
of the `locale`. -/
def Locale.format (locale : Locale) (template : Text) (args : List Message.Arg) : Text :=
  let ps := Message.parts none template
  Message.fillIn locale ps args ++ Message.showLeftOver locale (Message.leftOver ps args)

/-- The text of a message as this program words it, in `Locale.english`. -/
def Message.format (template : Text) (args : List Message.Arg) : Text :=
  Locale.english.format template args

end WordMachine
