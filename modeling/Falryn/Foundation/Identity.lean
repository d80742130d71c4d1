import Falryn.Foundation.JsValue

/-!
# Identifiers

What a string has to be to serve as an identifier (`domain/foundation/identity.ts`).
-/

namespace Falryn

/-- `MAX_IDENTIFIER_LENGTH`. -/
def maxIdentifierLength : ℕ := 128

/-- `/^[!-~]+$/`: printable ASCII without the space. -/
def isPrintableAscii (text : String) : Bool :=
  text.toList ≠ [] && text.toList.all fun c => '!' ≤ c && c ≤ '~'

/-- Whether the codec of an identity accepts a string. -/
def isIdentifier (text : String) : Bool :=
  utf16Length text ≤ maxIdentifierLength && isPrintableAscii text

/-- `from` of the codec of an identity, which throws where this is `none`. -/
def identifier? (text : String) : Option String := if isIdentifier text then some text else none

end Falryn
