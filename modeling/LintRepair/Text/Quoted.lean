import LintRepair.Text.Hex
import LintRepair.Text.Unprintable

/-!
# Quoted text

Values in log lines and in messages about wrong input are written between double quotes, so that
their ends and their invisible characters can be seen: a few characters have a short escape, those
that cannot be printed on their own are written by number, and all others stand for themselves.
-/

namespace LintRepair.Text

/-- How one character is written between double quotes. -/
def quotedChar (c : Char) : String :=
  match c with
  | '\x00' => "\\0"
  | '\t' => "\\t"
  | '\r' => "\\r"
  | '\n' => "\\n"
  | '"' => "\\\""
  | '\\' => "\\\\"
  | c => if isUnprintable c then "\\u\x7b" ++ hexText c.toNat ++ "\x7d" else String.singleton c

/-- The text between double quotes, with escapes. -/
def quoted (text : String) : String :=
  "\"" ++ String.join (text.toList.map quotedChar) ++ "\""

end LintRepair.Text
