import Palisade.Sql.Trusted
import Palisade.Text.Quoted
import Palisade.World

/-!
# Databases

A database runs trusted SQL, and data from outside reaches it only as arguments. The client of a
particular database is a driver with a state of its own. Every statement is recorded before it runs.
-/
namespace Palisade

open Palisade.Text

/-- An argument of a statement, or a cell of a result. -/
inductive SqlValue where
  | null
  | bool (value : Bool)
  | int (value : Int)
  /-- A 64-bit fraction by its bits. -/
  | fraction (bits : Nat)
  | text (value : String)
  | bytes (value : Bytes)
  deriving Repr, DecidableEq

/-- Why a statement has no result. -/
inductive SqlError where
  /-- The driver's own message. -/
  | driver (message : String)
  | noRows
  | noColumn (name : String)
  deriving Repr, DecidableEq

/-- The message of an error. -/
def SqlError.message : SqlError → String
  | driver message => "database driver error: " ++ message
  | noRows => "query returned no rows"
  | noColumn name => "column " ++ quote name ++ " not found"

/-- A row of a result. -/
structure SqlRow where
  /-- The names of the columns. -/
  columns : List String
  /-- The cells. -/
  values : List SqlValue
  deriving Repr, DecidableEq

/-- The cell of the first column of a name, if the row has one. -/
def SqlRow.get (r : SqlRow) (column : String) : Except SqlError SqlValue :=
  match (r.columns.findIdx? (· == column)).bind fun i => r.values[i]? with
  | some value => .ok value
  | none => .error (.noColumn column)

/-- The client of a database, with a state that its calls change. -/
structure SqlDriver (σ : Type) where
  /-- Runs a statement that gives rows. -/
  query : String → List SqlValue → σ → Except SqlError (List SqlRow) × σ
  /-- Runs a statement that changes rows, and gives their number. -/
  execute : String → List SqlValue → σ → Except SqlError Nat × σ

/-- A database in use. -/
structure Database (σ : Type) where
  /-- Its driver. -/
  driver : SqlDriver σ
  /-- The driver's state. -/
  state : σ
  /-- The world outside. -/
  world : World

namespace Database

variable {σ : Type}

/-- The event of a statement that is about to run. -/
def event (kind : String) (sql : TrustedSql) (args : List SqlValue) : Event :=
  ⟨.debug, kind, [("sql", sql.text), ("args", showNat args.length)]⟩

/-- Runs a statement that gives rows. -/
def query (d : Database σ) (sql : TrustedSql) (args : List SqlValue) :
    Except SqlError (List SqlRow) × Database σ :=
  let (result, state) := d.driver.query sql.text args d.state
  (result, { d with state, world := d.world.record (event "query" sql args) })

/-- The first row of a result. -/
def firstRow : Except SqlError (List SqlRow) → Except SqlError SqlRow
  | .ok (row :: _) => .ok row
  | .ok [] => .error .noRows
  | .error e => .error e

/-- Runs a statement that gives a row. -/
def queryRow (d : Database σ) (sql : TrustedSql) (args : List SqlValue) :
    Except SqlError SqlRow × Database σ :=
  let (result, d) := d.query sql args
  (firstRow result, d)

/-- Runs a statement that changes rows. -/
def execute (d : Database σ) (sql : TrustedSql) (args : List SqlValue) :
    Except SqlError Nat × Database σ :=
  let (result, state) := d.driver.execute sql.text args d.state
  (result, { d with state, world := d.world.record (event "execute" sql args) })

end Database

/-- A statement that is run again and again. -/
structure SqlStatement where
  /-- Its text. -/
  sql : TrustedSql
  deriving Repr, DecidableEq

namespace SqlStatement

variable {σ : Type}

/-- Runs a statement that gives rows. -/
def query (s : SqlStatement) (d : Database σ) (args : List SqlValue) :
    Except SqlError (List SqlRow) × Database σ :=
  d.query s.sql args

/-- Runs a statement that changes rows. -/
def execute (s : SqlStatement) (d : Database σ) (args : List SqlValue) :
    Except SqlError Nat × Database σ :=
  d.execute s.sql args

end SqlStatement

/-! ### A canned driver

A driver without a database: each query gives the same rows, each change counts its arguments, and
statements that drop something are refused. It keeps a list of the calls it got. -/

/-- A call that a driver got. -/
structure SqlCall where
  /-- Whether rows were asked for or changed. -/
  kind : String
  /-- The statement. -/
  sql : String
  /-- The arguments. -/
  args : List SqlValue
  deriving Repr, DecidableEq

namespace SqlDriver

/-- Whether a statement is refused. -/
def isRefused (sql : String) : Bool := "DROP".toList.isPrefixOf sql.toList

/-- The error of a refused statement. -/
def refusal : SqlError := .driver "permission denied"

/-- The driver that always gives these rows. Its state is the list of its calls. -/
def canned (rows : List SqlRow) : SqlDriver (List SqlCall) where
  query sql args calls :=
    (if isRefused sql then .error refusal else .ok rows, calls ++ [⟨"query", sql, args⟩])
  execute sql args calls :=
    (if isRefused sql then .error refusal else .ok args.length, calls ++ [⟨"execute", sql, args⟩])

end SqlDriver

end Palisade
