import Playground.Library.JavaScript

/-!
# Names in camel case

`PgCommon.toCamelCase` of `client/src/utils/pg/common.ts`: blanks are left out, and the letters at the
beginning of words are made capital letters, except for the first character of the text. A zero at the
beginning of a word is left out like a blank, because its number is that of a blank text.
-/

set_option autoImplicit false
set_option relaxedAutoImplicit false

namespace Playground.PgCommon

open Library

/-- What is left of a text in which something comes before, from whether it is the beginning of the text and
whether a character of a word comes before. -/
def camelCaseFrom (atStart afterWord : Bool) : Str → Str
  | [] => []
  | char :: rest =>
    if isSpaceChar char then camelCaseFrom false false rest
    else if isWordChar char ∧ (afterWord = false ∨ char.isUpper) then
      if char = '0' then camelCaseFrom false true rest
      else (if atStart then char.toLower else char.toUpper) :: camelCaseFrom false true rest
    else char :: camelCaseFrom false (isWordChar char) rest

/-- `PgCommon.toCamelCase`. -/
def toCamelCase (text : Str) : Str :=
  camelCaseFrom true false text

end Playground.PgCommon
