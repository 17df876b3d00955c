import JsonQuery.Value.Basic
import JsonQuery.Number.Binary64

/-!
# Order and equality of values

Numbers compare with numbers and strings with strings.  Two integers compare exactly; an integer
and a binary64 number compare as binary64 numbers, so large integers may equal a neighbour's
number.  Equality is deep, agrees with the order on numbers and does not see the order of keys.  A
reference that carries a tag equals itself.
-/

set_option autoImplicit false

namespace JsonQuery

namespace Value

def float? : Value → Option Float
  | .int n => some (Binary64.ofInt n.toInt)
  | .float x => some x
  | _ => none

/-- Compares two numbers or two strings; the latter by their characters, in code point order. -/
def compare? : Value → Value → Option Ordering
  | .int a, .int b => some (compare a.toInt b.toInt)
  | .string s, .string t => some (compare s t)
  | a, b =>
      match a.float?, b.float? with
      | some x, some y => Binary64.compare? x y
      | _, _ => none

def isBefore (a b : Value) : Bool :=
  a.compare? b == some .lt

end Value

/-! ## Equality

Equality is decided inside a pair of references or outside of any.  Inside references that are the
same one, undefined numbers equal each other; everywhere else they equal nothing.
-/

mutual

/-- Equality of values.  The flag tells that they are parts of the same reference. -/
def Value.equalsIn : (same : Bool) → Value → Value → Bool
  | _, .null, .null => true
  | _, .bool a, .bool b => a == b
  | _, .int a, .int b => a == b
  | same, .float x, .float y =>
      Binary64.equals x y || (same && Binary64.isNaN x && Binary64.isNaN y)
  | _, .int a, .float y => Binary64.equals (Binary64.ofInt a.toInt) y
  | _, .float x, .int b => Binary64.equals (Binary64.ofInt b.toInt) x
  | _, .string s, .string t => s == t
  | same, .array as, .array bs => Value.listEqualsIn same as bs
  | same, .object as, .object bs => as.length == bs.length && Value.entriesWithin same as bs
  | same, .reference i p, .reference j q => Query.equalsIn (same || Tag.same i j) p q
  | _, _, _ => false
termination_by structural _ a => a

def Value.listEqualsIn : (same : Bool) → List Value → List Value → Bool
  | _, [], [] => true
  | same, a :: as, b :: bs => Value.equalsIn same a b && Value.listEqualsIn same as bs
  | _, _, _ => false
termination_by structural _ as => as

/-- Is every entry of the first list found, with an equal value, in the second? -/
def Value.entriesWithin : (same : Bool) → List (String × Value) → List (String × Value) → Bool
  | _, [], _ => true
  | same, (key, a) :: as, bs =>
      (match Entries.get? key bs with
        | some b => Value.equalsIn same a b
        | none => false) &&
        Value.entriesWithin same as bs
termination_by structural _ as => as

/-- Equality of queries: the same tree, up to equality of the literals in it.  Tags are not
compared, because they belong to the answers of a reference and not to its tree. -/
def Query.equalsIn : (same : Bool) → Query → Query → Bool
  | _, .current, .current => true
  | _, .field a, .field b => a == b
  | _, .index a, .index b => a == b
  | same, .chain a c, .chain b d => Query.equalsIn same a b && Query.equalsIn same c d
  | same, .pipe a c, .pipe b d => Query.equalsIn same a b && Query.equalsIn same c d
  | same, .flatten a, .flatten b => Query.equalsIn same a b
  | same, .eachItem a c, .eachItem b d => Query.equalsIn same a b && Query.equalsIn same c d
  | same, .eachMember a c, .eachMember b d => Query.equalsIn same a b && Query.equalsIn same c d
  | same, .guard a c, .guard b d => Query.equalsIn same a b && Query.equalsIn same c d
  | same, .compare op a c, .compare op' b d =>
      op == op' && Query.equalsIn same a b && Query.equalsIn same c d
  | same, .both a c, .both b d => Query.equalsIn same a b && Query.equalsIn same c d
  | same, .either a c, .either b d => Query.equalsIn same a b && Query.equalsIn same c d
  | same, .negate a, .negate b => Query.equalsIn same a b
  | same, .list as, .list bs => Query.listEqualsIn same as bs
  | same, .hash as, .hash bs => Query.entriesEqualIn same as bs
  | same, .literal a, .literal b => Value.equalsIn same a b
  | same, .reference _ a, .reference _ b => Query.equalsIn same a b
  | _, .slice a, .slice b => a == b
  | same, .call f as lenient, .call g bs lenient' =>
      f == g && Query.listEqualsIn same as bs && lenient == lenient'
  | _, .path as, .path bs => as == bs
  | same, .presentItems a, .presentItems b => Query.equalsIn same a b
  | same, .presentMembers a, .presentMembers b => Query.equalsIn same a b
  | same, .guardCompare op a c e, .guardCompare op' b d f =>
      op == op' && Query.equalsIn same a b && Query.equalsIn same c d && Query.equalsIn same e f
  | same, .guardLiteral n a u c, .guardLiteral m b v d =>
      n == m && Query.equalsIn same a b && Value.equalsIn same u v && Query.equalsIn same c d
  | _, .range a c, .range b d => a == b && c == d
  | _, _, _ => false
termination_by structural _ a => a

def Query.listEqualsIn : (same : Bool) → List Query → List Query → Bool
  | _, [], [] => true
  | same, a :: as, b :: bs => Query.equalsIn same a b && Query.listEqualsIn same as bs
  | _, _, _ => false
termination_by structural _ as => as

/-- Equality of lists of named queries, one by one and in order. -/
def Query.entriesEqualIn : (same : Bool) → List (String × Query) → List (String × Query) → Bool
  | _, [], [] => true
  | same, (j, a) :: as, (k, b) :: bs =>
      j == k && Query.equalsIn same a b && Query.entriesEqualIn same as bs
  | _, _, _ => false
termination_by structural _ as => as

end

def Value.equals (a b : Value) : Bool :=
  Value.equalsIn false a b

def Query.equals (p q : Query) : Bool :=
  Query.equalsIn false p q

/-- The outcome of a comparator on two values.  The ordering comparators have none unless both
values are numbers that compare. -/
def Comparator.test? (op : Comparator) (a b : Value) : Option Bool :=
  match op with
  | .eq => some (a.equals b)
  | .ne => some (!a.equals b)
  | .lt | .le | .gt | .ge =>
      if a.isNumber && b.isNumber then (a.compare? b).map op.accepts else none

end JsonQuery
