import Credential.Json.Basic
/-!
# Credential.Json.Equality — equality of value

Two documents agree when they denote the same value: numbers are compared by value, so `1` agrees
with `1.0`, and everything else by its text. Objects are compared member by member in order of
writing, so the same members in another order make another value.
-/

namespace Credential.Json

mutual

/-- Whether two documents denote the same value. -/
def agrees : Json → Json → Bool
  | .null, .null => true
  | .bool a, .bool b => a == b
  | .number a, .number b => a.agrees b
  | .string a, .string b => a == b
  | .array as, .array bs => itemsAgree as bs
  | .object as, .object bs => membersAgree as bs
  | _, _ => false
termination_by structural j => j

/-- Whether two lists of documents agree one by one. -/
def itemsAgree : List Json → List Json → Bool
  | [], [] => true
  | a :: as, b :: bs => agrees a b && itemsAgree as bs
  | _, _ => false
termination_by structural as => as

/-- Whether two lists of members agree one by one. -/
def membersAgree : List (String × Json) → List (String × Json) → Bool
  | [], [] => true
  | (k, a) :: as, (l, b) :: bs => k == l && agrees a b && membersAgree as bs
  | _, _ => false
termination_by structural as => as

end

/-- Whether no two items of a list agree. -/
def distinct : List Json → Bool
  | [] => true
  | x :: xs => !xs.any (agrees x) && distinct xs

end Credential.Json
