/-! Tables from names to values that keep the order in which names were first entered. -/

namespace BlockScript

abbrev Table (α : Type) := List (String × α)

namespace Table

variable {α : Type}

def get? (t : Table α) (name : String) : Option α :=
  List.lookup name t

def keys (t : Table α) : List String :=
  t.map Prod.fst

def values (t : Table α) : List α :=
  t.map Prod.snd

/-- Binds `name`, in its old place if it has one and at the end otherwise. -/
def insert (t : Table α) (name : String) (value : α) : Table α :=
  match t with
  | [] => [(name, value)]
  | (k, v) :: rest => if k = name then (k, value) :: rest else (k, v) :: insert rest name value

def extend (t more : Table α) : Table α :=
  more.foldl (fun t b => t.insert b.1 b.2) t

def erase (t : Table α) (name : String) : Table α :=
  t.filter fun b => b.1 != name

def mapValues (f : α → α) (t : Table α) : Table α :=
  t.map fun b => (b.1, f b.2)

end Table

end BlockScript
