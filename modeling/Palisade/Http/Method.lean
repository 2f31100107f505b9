/-!
# Request methods

The nine standard methods and all others by their names. Names of methods keep their case: only the
capital spelling is the standard method.
-/
namespace Palisade

/-- What a request asks to be done. -/
inductive Method where
  | get
  | post
  | put
  | delete
  | head
  | options
  | patch
  | connect
  | trace
  /-- A method that is not standard. -/
  | custom (name : String)
  deriving Repr, DecidableEq

namespace Method

/-- The name of a method. -/
def name : Method → String
  | get => "GET"
  | post => "POST"
  | put => "PUT"
  | delete => "DELETE"
  | head => "HEAD"
  | options => "OPTIONS"
  | patch => "PATCH"
  | connect => "CONNECT"
  | trace => "TRACE"
  | custom name => name

/-- The method with a name. -/
def ofName (name : String) : Method :=
  if name = "GET" then get
  else if name = "POST" then post
  else if name = "PUT" then put
  else if name = "DELETE" then delete
  else if name = "HEAD" then head
  else if name = "OPTIONS" then options
  else if name = "PATCH" then patch
  else if name = "CONNECT" then connect
  else if name = "TRACE" then trace
  else custom name

/-- Methods that only read. -/
def isSafe : Method → Bool
  | get | head | options | trace => true
  | _ => false

/-- Methods that may carry a form and so need protection against forged requests. -/
def isStateChanging : Method → Bool
  | get | head | options => false
  | _ => true

/-- Methods whose repetition changes nothing further. -/
def isIdempotent : Method → Bool
  | get | head | put | delete | options | trace => true
  | _ => false

/-- A method that was made from a name has this name. -/
@[simp] theorem name_ofName (n : String) : (ofName n).name = n := by
  unfold ofName
  repeat' split
  all_goals simp_all [name]

/-- Methods read from names are told apart by their names. -/
theorem ofName_injective {m n : String} (h : ofName m = ofName n) : m = n := by
  have := congrArg name h
  simpa using this

end Method

end Palisade
