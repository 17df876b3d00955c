/-!
# Text

Small functions on lists of characters: delimited text in which a backslash protects the next
character, replacement of an escaped delimiter, and infixes.
-/

set_option autoImplicit false

namespace JsonQuery.Text

/-- The text up to the next unprotected `delimiter`, and what follows that delimiter.  A backslash
protects the character behind it; both stay in the text. -/
def delimited? (delimiter : Char) : List Char → Option (List Char × List Char)
  | [] => none
  | c :: rest =>
      if c = delimiter then some ([], rest)
      else if c = '\\' then
        match rest with
        | [] => none
        | kept :: rest =>
            (delimited? delimiter rest).map fun (body, after) => (c :: kept :: body, after)
      else (delimited? delimiter rest).map fun (body, after) => (c :: body, after)

/-- Replaces every backslash that is followed by `delimiter`, together with it, by the delimiter
alone, from left to right. -/
def unprotect (delimiter : Char) : List Char → List Char
  | [] => []
  | [c] => [c]
  | c :: d :: rest =>
      if c = '\\' ∧ d = delimiter then delimiter :: unprotect delimiter rest
      else c :: unprotect delimiter (d :: rest)

def isInfix (part : List Char) : List Char → Bool
  | [] => part.isEmpty
  | c :: rest => part.isPrefixOf (c :: rest) || isInfix part rest

end JsonQuery.Text
