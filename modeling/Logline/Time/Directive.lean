import Logline.Time.Timestamp
/-!
Date formats in the `strftime` language: a format is read into items
(`Items.read?`), and items are rendered one by one (`Item.render?`).  Reading
refuses unknown directives; one accepted directive, `%#z`, has a meaning for
reading dates only and cannot be rendered.
-/
namespace Logline

/-- A number taken from a timestamp. -/
inductive Component
  | year
  | century
  | yearOfCentury
  | isoYear
  | isoYearOfCentury
  | quarter
  | month
  | day
  | weekFromSunday
  | weekFromMonday
  | isoWeek
  | daysFromSunday
  | weekdayFromMonday
  | ordinal
  | hour
  | hour12
  | minute
  | second
  | nanos
  | unixSeconds
deriving DecidableEq, Repr

/-- A piece of a date format. -/
inductive Item
  | literal (c : Char)
  | number (component : Component) (padding : Padding)
  | monthName (long : Bool)
  | weekdayName (long : Bool)
  | meridiem (upper : Bool)
  | fraction
  | fractionOf (places : Nat) (point : Bool)
  | zoneName
  | offset (separator : Text)
  | offsetSeconds
  | offsetHours
  | anyOffset
deriving DecidableEq, Repr

namespace Component

def monthNames : List Text :=
  ["January".toList, "February".toList, "March".toList,
    "April".toList, "May".toList, "June".toList, "July".toList, "August".toList,
    "September".toList, "October".toList,
    "November".toList, "December".toList]

def weekdayNames : List Text :=
  ["Sunday".toList, "Monday".toList, "Tuesday".toList, "Wednesday".toList,
    "Thursday".toList, "Friday".toList, "Saturday".toList]

/-- Tens and units.  Numbers are kept in a byte, and tens beyond nine, which
only centuries reach, go on in the order of characters after `9`. -/
def two (padding : Padding) (n : Int) : Text :=
  let n := (n % 256).toNat
  let tens := match padding with
    | .none => if n < 10 then [] else [Char.ofNat (48 + n / 10)]
    | .spaces => if n < 10 then [' '] else [Char.ofNat (48 + n / 10)]
    | .zeros => [Char.ofNat (48 + n / 10)]
  tens ++ [Nat.digitChar (n % 10)]

/-- The number of the week of the year, weeks beginning on a day that is
`daysInto` days ago. -/
def week (ordinal daysInto : Nat) : Nat :=
  (ordinal + 6 - daysInto) / 7

/-- A component of the local time as text. -/
def render (c : Component) (padding : Padding) (t : Timestamp) : Text :=
  match c with
  | year => padding.year t.date.year
  | century => two padding (t.date.year / 100)
  | yearOfCentury => two padding (t.date.year % 100)
  | isoYear => padding.year (Date.isoWeek t.day).1
  | isoYearOfCentury => two padding ((Date.isoWeek t.day).1 % 100)
  | quarter => Text.ofNat ((t.date.month - 1) / 3 + 1)
  | month => two padding t.date.month
  | day => two padding t.date.day
  | weekFromSunday =>
    two padding (week t.date.ordinal (Date.daysFromSunday t.day))
  | weekFromMonday =>
    two padding (week t.date.ordinal (Date.daysFromMonday t.day))
  | isoWeek => two padding (Date.isoWeek t.day).2
  | daysFromSunday => Text.ofNat (Date.daysFromSunday t.day)
  | weekdayFromMonday => Text.ofNat (Date.daysFromMonday t.day + 1)
  | ordinal => padding.number 3 t.date.ordinal
  | hour => two padding t.hour
  | hour12 => two padding t.hour12
  | minute => two padding t.minute
  | second => two padding t.second
  | nanos => padding.number 9 t.subsecond
  | unixSeconds => padding.number 9 t.seconds

end Component

namespace Item

/-- The text of an item, if it can be rendered at all. -/
def render? (t : Timestamp) : Item → Option Text
  | literal c => some [c]
  | number component padding => some (component.render padding t)
  | monthName long =>
    let name := Component.monthNames.getD (t.date.month - 1) []
    some (if long then name else name.take 3)
  | weekdayName long =>
    let name := Component.weekdayNames.getD (Date.daysFromSunday t.day) []
    some (if long then name else name.take 3)
  | meridiem upper =>
    some <| match t.isAfternoon, upper with
      | true, true => "PM".toList
      | true, false => "pm".toList
      | false, true => "AM".toList
      | false, false => "am".toList
  | fraction => some t.fraction
  | fractionOf places point =>
    let digits := Text.zeroPadded places (t.subsecond / Nat.pow 10 (9 - places))
    some (if point then '.' :: digits else digits)
  | zoneName => some (Offset.name t.offset)
  | offset separator => some (Offset.toMinutes separator t.offset)
  | offsetSeconds => some (Offset.toSeconds t.offset)
  | offsetHours => some (Offset.toHours t.offset)
  | anyOffset => none

def zeros (c : Component) : Item := number c .zeros

/-- The items of a directive of one letter. -/
def ofLetter? : Char → Option (List Item)
  | 'A' => some [weekdayName true]
  | 'B' => some [monthName true]
  | 'C' => some [zeros .century]
  | 'D' => some slashDate
  | 'F' => some dashDate
  | 'G' => some [zeros .isoYear]
  | 'H' => some [zeros .hour]
  | 'I' => some [zeros .hour12]
  | 'M' => some [zeros .minute]
  | 'P' => some [meridiem false]
  | 'R' => some [zeros .hour, literal ':', zeros .minute]
  | 'S' => some [zeros .second]
  | 'T' => some clock
  | 'U' => some [zeros .weekFromSunday]
  | 'V' => some [zeros .isoWeek]
  | 'W' => some [zeros .weekFromMonday]
  | 'X' => some clock
  | 'Y' => some [zeros .year]
  | 'Z' => some [zoneName]
  | 'a' => some [weekdayName false]
  | 'b' => some [monthName false]
  | 'c' => some ([weekdayName false, literal ' ', monthName false, literal ' ',
      number .day .spaces, literal ' '] ++ clock ++ [literal ' ', zeros .year])
  | 'd' => some [zeros .day]
  | 'e' => some [number .day .spaces]
  | 'f' => some [zeros .nanos]
  | 'g' => some [zeros .isoYearOfCentury]
  | 'h' => some [monthName false]
  | 'j' => some [zeros .ordinal]
  | 'k' => some [number .hour .spaces]
  | 'l' => some [number .hour12 .spaces]
  | 'm' => some [zeros .month]
  | 'n' => some [literal '\n']
  | 'p' => some [meridiem true]
  | 'q' => some [number .quarter .none]
  | 'r' => some [zeros .hour12, literal ':', zeros .minute, literal ':',
      zeros .second, literal ' ', meridiem true]
  | 's' => some [number .unixSeconds .none]
  | 't' => some [literal '\t']
  | 'u' => some [number .weekdayFromMonday .none]
  | 'v' => some [number .day .spaces, literal '-', monthName false,
      literal '-', zeros .year]
  | 'w' => some [number .daysFromSunday .none]
  | 'x' => some slashDate
  | 'y' => some [zeros .yearOfCentury]
  | 'z' => some [offset []]
  | '+' => some (dashDate ++ [literal 'T'] ++ clock ++ [fraction, offset [':']])
  | '%' => some [literal '%']
  | _ => none
where
  slashDate : List Item :=
    [zeros .month, literal '/', zeros .day, literal '/', zeros .yearOfCentury]
  dashDate : List Item :=
    [zeros .year, literal '-', zeros .month, literal '-', zeros .day]
  clock : List Item :=
    [zeros .hour, literal ':', zeros .minute, literal ':', zeros .second]

/-- The padding that a flag between `%` and the letter asks for. -/
def padding? : Char → Option Padding
  | '-' => some .none
  | '0' => some .zeros
  | '_' => some .spaces
  | _ => none

/-- The number of places that a digit in front of `f` asks for. -/
def places? : Char → Option Nat
  | '3' => some 3
  | '6' => some 6
  | '9' => some 9
  | _ => none

/-- The items of a letter with a padding flag: the letter has to stand for a
single number. -/
def withPadding? (padding : Padding) (letter : Char) : Option (List Item) :=
  match ofLetter? letter with
  | some [number component _] => some [number component padding]
  | _ => none

/-- The items of the directive after a `%`, and the number of characters it
takes. -/
def directive? : Text → Option (List Item × Nat)
  | '#' :: 'z' :: _ => some ([anyOffset], 2)
  | ':' :: ':' :: ':' :: 'z' :: _ => some ([offsetHours], 4)
  | ':' :: ':' :: 'z' :: _ => some ([offsetSeconds], 3)
  | ':' :: 'z' :: _ => some ([offset [':']], 2)
  | '.' :: 'f' :: _ => some ([fraction], 2)
  | '.' :: digit :: 'f' :: _ =>
    (places? digit).map fun n => ([fractionOf n true], 3)
  | c :: rest =>
    match padding? c, places? c, rest with
    | some padding, _, letter :: _ => (withPadding? padding letter).map (·, 2)
    | some _, _, [] => none
    | none, some n, 'f' :: _ => some ([fractionOf n false], 2)
    | none, some _, _ => none
    | none, none, _ => (ofLetter? c).map (·, 1)
  | [] => none

/-- The items of a format after its first `skip` characters, which an earlier
directive has used. -/
def readFrom? : Nat → Text → Option (List Item)
  | _, [] => some []
  | skip + 1, _ :: rest => readFrom? skip rest
  | 0, c :: rest =>
    if c = '%' then
      match directive? rest with
      | some (items, used) => (readFrom? used rest).map (items ++ ·)
      | none => none
    else (readFrom? 0 rest).map (literal c :: ·)

/-- The items of a format, unless some directive is unknown or cut short. -/
def readAll? (format : Text) : Option (List Item) :=
  readFrom? 0 format

/-- The texts of the items one after the other, if all can be rendered. -/
def renderAll? (t : Timestamp) (items : List Item) : Option Text :=
  (items.mapM (render? t)).map List.flatten

end Item

end Logline
