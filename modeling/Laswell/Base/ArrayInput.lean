import Mathlib.Data.List.Basic
import Laswell.Base.Readable

/-!
# Laswell.Base.ArrayInput

The text form of a PostgreSQL array of one dimension: items in braces with a delimiter between
them. An item in double quotes is taken as it is, but for a backslash, which takes the byte behind
it; an item without quotes ends at the delimiter or the brace, loses the blanks around it, and is
NULL if it is that word.

* `step`: the reader, byte by byte. A second dimension or bounds before the brace make another kind
  of array, which is not read here.
* `arrayIn`: what a whole text says, if it is an array.
* `arrayIn_write`: items written in quotes, with a backslash before each quote and each backslash,
  are read back as they were.
-/

namespace Laswell
namespace Base
namespace ArrayInput

abbrev quote : UInt8 := 0x22
abbrev backslash : UInt8 := 0x5C
abbrev openBrace : UInt8 := 0x7B
abbrev closeBrace : UInt8 := 0x7D

/-- `array_isspace`: blank, tab, line feed, vertical tab, form feed, carriage return. -/
def isSpace (c : UInt8) : Bool := c == 0x20 || (0x09 ≤ c && c ≤ 0x0D)

/-- An item; `none` is NULL. -/
abbrev Item := Option (List UInt8)

/-- Where the reader is, with the items before it and the one it is in. `owed` is behind a
delimiter, `unquoted` behind the quote that ends an item, and an item without quotes is `plain`
until a backslash comes; its last blanks count only if something comes behind them. -/
inductive Reader where
  | outside
  | begun
  | owed (items : List Item)
  | quoted (items : List Item) (item : List UInt8)
  | escaped (items : List Item) (item : List UInt8)
  | unquoted (items : List Item)
  | bare (items : List Item) (item blanks : List UInt8) (plain : Bool)
  | bareEscaped (items : List Item) (item : List UInt8)
  | closed (items : List Item)
  deriving DecidableEq

def lower (c : UInt8) : UInt8 := if 0x41 ≤ c && c ≤ 0x5A then c + 0x20 else c

/-- An item without quotes is NULL if it is the word, in whatever case. -/
def bareItem (item : List UInt8) (plain : Bool) : Item :=
  if plain && item.map lower == [0x6E, 0x75, 0x6C, 0x6C] then none else some item

section Reading

variable (delim : UInt8)

/-- The first byte of an item, which is neither blank nor brace. -/
def beginItem (items : List Item) (c : UInt8) : Option Reader :=
  if c = quote then some (.quoted items [])
  else if c = backslash then some (.bareEscaped items [])
  else if c = delim ∨ c = openBrace ∨ c = closeBrace then none
  else some (.bare items [c] [] true)

def step : Reader → UInt8 → Option Reader
  | .outside, c =>
    if isSpace c then some .outside else if c = openBrace then some .begun else none
  | .begun, c =>
    if isSpace c then some .begun else if c = closeBrace then some (.closed [])
    else beginItem delim [] c
  | .owed items, c => if isSpace c then some (.owed items) else beginItem delim items c
  | .quoted items item, c =>
    if c = quote then some (.unquoted (items ++ [some item]))
    else if c = backslash then some (.escaped items item)
    else some (.quoted items (item ++ [c]))
  | .escaped items item, c => some (.quoted items (item ++ [c]))
  | .unquoted items, c =>
    if c = delim then some (.owed items) else if c = closeBrace then some (.closed items)
    else if isSpace c then some (.unquoted items) else none
  | .bare items item blanks plain, c =>
    if c = quote ∨ c = openBrace then none
    else if c = backslash then some (.bareEscaped items (item ++ blanks))
    else if c = delim then some (.owed (items ++ [bareItem item plain]))
    else if c = closeBrace then some (.closed (items ++ [bareItem item plain]))
    else if isSpace c then some (.bare items item (blanks ++ [c]) plain)
    else some (.bare items (item ++ blanks ++ [c]) [] plain)
  | .bareEscaped items item, c => some (.bare items (item ++ [c]) [] false)
  | .closed items, c => if isSpace c then some (.closed items) else none

/-- The items of a text, if it is an array of them. -/
def arrayIn (text : List UInt8) : Option (List Item) :=
  match text.foldlM (step delim) .outside with
  | some (.closed items) => some items
  | _ => none

end Reading

/-! ## Writing -/

/-- The bytes of an item, as they stand between its quotes. -/
def escapeItem (item : List UInt8) : List UInt8 :=
  item.flatMap fun c => if c = quote ∨ c = backslash then [backslash, c] else [c]

def quoteItem (item : List UInt8) : List UInt8 := quote :: escapeItem item ++ [quote]

def write (delim : UInt8) (items : List (List UInt8)) : List UInt8 :=
  openBrace :: sepList quoteItem delim closeBrace items

variable {delim : UInt8}

theorem step_quoted {c : UInt8} (hc : ¬(c = quote ∨ c = backslash)) (items : List Item)
    (item : List UInt8) :
    step delim (.quoted items item) c = some (.quoted items (item ++ [c])) := by
  rw [not_or] at hc
  rw [step, if_neg hc.1, if_neg hc.2]

theorem read_escapeItem (delim : UInt8) (items : List Item) (item : List UInt8) :
    ∀ before, (escapeItem item).foldlM (step delim) (.quoted items before) =
      some (.quoted items (before ++ item)) := by
  induction item with
  | nil =>
    intro before
    simp [escapeItem]
  | cons c item ih =>
    intro before
    have hrest := ih (before ++ [c])
    rw [List.append_assoc, List.singleton_append] at hrest
    have hcons : escapeItem (c :: item) =
        (if c = quote ∨ c = backslash then [backslash, c] else [c]) ++ escapeItem item := rfl
    rw [hcons, List.foldlM_append]
    by_cases hc : c = quote ∨ c = backslash
    · -- the backslash, and then the byte it takes
      have hfirst : step delim (.quoted items before) backslash = some (.escaped items before) :=
        rfl
      have hsecond : step delim (.escaped items before) c =
          some (.quoted items (before ++ [c])) := rfl
      simp [hc, hfirst, hsecond, hrest]
    · simp [hc, step_quoted hc, hrest]

/-- Where an item may begin, with the items before it. -/
inductive Reader.Expects : Reader → List Item → Prop where
  | first : Expects .begun []
  | later (items : List Item) : Expects (.owed items) items

theorem read_quoteItem (delim : UInt8) {r : Reader} {items : List Item} (hr : r.Expects items)
    (item : List UInt8) :
    (quoteItem item).foldlM (step delim) r = some (.unquoted (items ++ [some item])) := by
  have hbegin : step delim r quote = some (.quoted items []) := by
    cases hr with
    | first => rfl
    | later items => rfl
  have hend : step delim (.quoted items item) quote = some (.unquoted (items ++ [some item])) := rfl
  have hinside := read_escapeItem delim items item []
  rw [List.nil_append] at hinside
  simp [quoteItem, hbegin, hinside, hend]

theorem read_tail (hdelim : closeBrace ≠ delim) (rest : List (List UInt8)) :
    ∀ items, (sepTail quoteItem delim closeBrace rest).foldlM (step delim) (.unquoted items) =
      some (.closed (items ++ rest.map some)) := by
  induction rest with
  | nil =>
    intro items
    simp [sepTail, step, hdelim]
  | cons item rest ih =>
    intro items
    have hnext : step delim (.unquoted items) delim = some (.owed items) := by simp [step]
    have hitem := read_quoteItem delim (.later items) item
    simp [sepTail, hnext, hitem, ih]

/-- A delimiter that is no syntax of its own. -/
theorem arrayIn_write (hdelim : closeBrace ≠ delim) (items : List (List UInt8)) :
    arrayIn delim (write delim items) = some (items.map some) := by
  have hopen : step delim .outside openBrace = some .begun := rfl
  cases items with
  | nil => rfl
  | cons item rest =>
    have hitem := read_quoteItem delim .first item
    have htail := read_tail hdelim rest [some item]
    simp [arrayIn, write, sepList, hopen, hitem, htail]

end ArrayInput
end Base
end Laswell
