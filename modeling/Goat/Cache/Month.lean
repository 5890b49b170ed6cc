import Goat.Text.Lower

/-!
# Names of months

The short names of months in the languages that listings know.
-/

namespace Goat

/-- A language with its own names of months. -/
inductive MonthLocale where
  | enUS | enGB | deDE | frFR | frCA | esES | itIT | nlNL | ptPT | ptBR | jaJP
  deriving DecidableEq, Repr

namespace MonthLocale

/-- The name of a locale. -/
def name : MonthLocale → Text
  | enUS => "en_US"
  | enGB => "en_GB"
  | deDE => "de_DE"
  | frFR => "fr_FR"
  | frCA => "fr_CA"
  | esES => "es_ES"
  | itIT => "it_IT"
  | nlNL => "nl_NL"
  | ptPT => "pt_PT"
  | ptBR => "pt_BR"
  | jaJP => "ja_JP"

/-- The locales by the tags they are asked for with. -/
def tags : List (Text × MonthLocale) :=
  [ ("en", enUS), ("en_us", enUS), ("en_gb", enGB), ("de", deDE), ("de_de", deDE), ("fr", frFR),
    ("fr_fr", frFR), ("fr_ca", frCA), ("es", esES), ("it", itIT), ("nl", nlNL), ("pt", ptPT),
    ("pt_br", ptBR), ("ja", jaJP) ]

/-- The locale of a tag such as `de-DE`: that of the whole tag, else that of its
    language, else the first. -/
def ofTag (tag : Text) : MonthLocale :=
  let tag := Text.lower (tag.map fun b => if b = 0x2d then 0x5f else b)
  match tags.lookup tag with
  | some locale => locale
  | none => ((Text.splitFirst? "_" tag).bind fun (language, _) => tags.lookup language).getD enUS

/-- The short names of the months. -/
def months : MonthLocale → List Text
  | enUS | enGB =>
    ["Jan", "Feb", "Mar", "Apr", "May", "Jun", "Jul", "Aug", "Sep", "Oct", "Nov", "Dec"]
  | deDE =>
    ["Jan", "Feb", "Mär", "Apr", "Mai", "Juni", "Juli", "Aug", "Sep", "Okt", "Nov", "Dez"]
  | frFR | frCA =>
    ["janv", "févr", "mars", "avr", "mai", "juin", "juil", "août", "sept", "oct", "nov", "déc"]
  | esES => ["ene", "feb", "mar", "abr", "may", "jun", "jul", "ago", "sep", "oct", "nov", "dic"]
  | itIT => ["gen", "feb", "mar", "apr", "mag", "giu", "lug", "ago", "set", "ott", "nov", "dic"]
  | nlNL => ["jan", "feb", "mrt", "apr", "mei", "jun", "jul", "aug", "sep", "okt", "nov", "dec"]
  | ptPT => ["Jan", "Fev", "Mar", "Abr", "Mai", "Jun", "Jul", "Ago", "Set", "Out", "Nov", "Dez"]
  | ptBR => ["jan", "fev", "mar", "abr", "mai", "jun", "jul", "ago", "set", "out", "nov", "dez"]
  | jaJP => ["1月", "2月", "3月", "4月", "5月", "6月", "7月", "8月", "9月", "10月", "11月", "12月"]

/-- The short name of a month, counted from one. -/
def month (locale : MonthLocale) (n : Nat) : Text := locale.months.getD (n - 1) []

end MonthLocale

end Goat
