import Goat.Cache.Month
import Goat.Cache.Store
import Goat.Size.Printer
import Goat.Text.Grouping

/-!
# Listings

The records of a cache as a table, with dates in the language of the user.
-/

namespace Goat.Cache

/-- The number of bytes of a hash that are shown. -/
def shownHashSize : Nat := 12

/-- A date and time of day. -/
def dateText (locale : MonthLocale) (t : Instant) : Text :=
  let (date, seconds, _) := Calendar.split t
  Text.intercalate (Text.blanks 1)
    [ Calendar.padded 2 date.day, locale.month date.month, Calendar.yearText date.year,
      Calendar.clockText seconds ]

/-- A row of the table. -/
def row (hash created source stored instructions : Text) : Text :=
  Text.join
    [ Text.intercalate (Text.blanks 2)
        [ Text.padRight 12 hash, Text.padRight 22 created, Text.padLeft 9 source,
          Text.padLeft 9 stored, instructions ],
      Text.newline ]

/-- The row of a record. -/
def Record.row (locale : MonthLocale) (r : Record) : Text :=
  Cache.row (r.hash.take shownHashSize) (dateText locale r.created) (Size.wordToText r.sourceSize)
    (Size.wordToText r.storedSize) (Text.ofIntGrouped "," r.instructions)

/-- The records as a table. -/
def listingText (records : List Record) (localeTag : Text) : Text :=
  if records.isEmpty then "(cache is empty)\n"
  else
    let locale := MonthLocale.ofTag localeTag
    let total := (records.map Record.storedSize).foldl (· + ·) 0
    Text.join
      [ row "HASH" "CREATED" "SOURCE" "STORED" "INSTRUCTIONS",
        records.flatMap (Record.row locale),
        Text.ofNat records.length, " entries, ", Size.wordToText total, " stored\n" ]

end Goat.Cache
