/-!
# Quoted literals

String and character literals stand between quotes. `encode` writes a value so that the quote and
the backslash, the line controls and NUL are escaped, and everything else stands for itself;
`decode` reads up to the closing quote, where a backslash before any other character just yields
that character. Main statement: `decode_encode`, whatever follows the closing quote.
-/
namespace Stencil.Source.Quoted

/-- One character inside a literal quoted by `quote`. -/
def encodeChar (quote c : Char) : List Char :=
  match c with
  | '\\' => ['\\', '\\']
  | '\n' => ['\\', 'n']
  | '\t' => ['\\', 't']
  | '\r' => ['\\', 'r']
  | '\x00' => ['\\', '0']
  | _ => if c = quote then ['\\', c] else [c]

def encode (quote : Char) (value : List Char) : List Char :=
  value.flatMap (encodeChar quote)

/-- The character that a backslash and `c` stand for. -/
def unescape : Char → Char
  | 'n' => '\n'
  | 't' => '\t'
  | 'r' => '\r'
  | '0' => '\x00'
  | c => c

/-- The value before the closing quote, and how many characters it and the quote take. -/
def decode (quote : Char) : List Char → Option (List Char × Nat)
  | [] => none
  | c :: rest =>
    if c = quote then some ([], 1)
    else if c = '\\' then
      match rest with
      | [] => none
      | e :: rest => (decode quote rest).map fun (value, n) => (unescape e :: value, n + 2)
    else (decode quote rest).map fun (value, n) => (c :: value, n + 1)

/-- A literal with its quotes. -/
def write (quote : Char) (value : String) : String :=
  String.ofList (quote :: encode quote value.toList ++ [quote])

/-- Reading a written value gives it back and stops right after the closing quote. -/
theorem decode_encode {quote : Char} (hq : quote = '"' ∨ quote = '\'') (value rest : List Char) :
    decode quote (encode quote value ++ quote :: rest) =
      some (value, (encode quote value).length + 1) := by
  induction value with
  | nil => unfold decode; simp [encode]
  | cons c value ih =>
    have step : encode quote (c :: value) = encodeChar quote c ++ encode quote value := by
      simp [encode]
    rw [step]
    unfold encodeChar
    split
    · rcases hq with rfl | rfl <;> simp_all [decode, unescape]
    · rcases hq with rfl | rfl <;> simp_all [decode, unescape]
    · rcases hq with rfl | rfl <;> simp_all [decode, unescape]
    · rcases hq with rfl | rfl <;> simp_all [decode, unescape]
    · rcases hq with rfl | rfl <;> simp_all [decode, unescape]
    · split
      · next hc => subst hc; rcases hq with rfl | rfl <;> simp_all [decode, unescape]
      · next h _ _ _ _ hc => unfold decode; simp_all

end Stencil.Source.Quoted
