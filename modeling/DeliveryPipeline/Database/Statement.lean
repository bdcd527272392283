import DeliveryPipeline.Database.Row

/-! # Statements

What the database is asked, apart from its spelling: the verb, the table or index, the columns that are
set and the keys that rows are chosen by. A connection executes statements one at a time, and answers
with rows.
-/

namespace DeliveryPipeline.Database

set_option autoImplicit false

inductive Verb where
  | select
  | insert
  | update
  | create
deriving DecidableEq, Repr

inductive Assignment where
  /-- the value is bound to the statement -/
  | bound (column : String) (value : Value)
  /-- the value stands in the statement, or is bound to it already -/
  | known (column : String) (value : Value)
deriving Repr

namespace Assignment

def entry : Assignment → String × Value
  | bound column value | known column value => (column, value)

end Assignment

structure Statement where
  verb : Verb
  /-- the table, or what is created -/
  object : String
  assignments : List Assignment
  /-- the columns that rows are chosen by, with the values bound for them -/
  keys : List (String × Value)
deriving Repr

namespace Statement

def select (table : String) (keys : List (String × Value)) : Statement := ⟨.select, table, [], keys⟩

def create (object : String) : Statement := ⟨.create, object, [], []⟩

/-- The columns that a statement sets, as they are stored. -/
def stored (statement : Statement) : Row := statement.assignments.map Assignment.entry

end Statement

/-- A way to execute statements. -/
abbrev Connection (m : Type → Type) := Statement → ExceptT StorageError m (List Row)

def Connection.none {m : Type → Type} [Monad m] : Connection m := fun _ => throw .unavailable

end DeliveryPipeline.Database
