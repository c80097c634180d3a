import StorageClient.Toml.Scalar

/-!
TOML documents: tables of values, built line by line. A table remembers how it came about, which
decides what may still be added to it.
-/

namespace StorageClient.Toml

inductive Origin where
  /-- By a header of its own, or as the whole document. -/
  | header
  /-- As the parent of a table with a header. -/
  | parent
  /-- By a key with several parts. -/
  | dotted
  /-- In braces; nothing can be added. -/
  | braces
deriving DecidableEq, Repr

/-- A value. An array of tables is one that headers in double brackets made. -/
inductive Node where
  | scalar (s : Scalar)
  | string (t : Text)
  | array (ofTables : Bool) (items : List Node)
  | table (origin : Origin) (members : List (Text × Node))

namespace Node

mutual

def fits : Node → Bool
  | .scalar s => s.fits
  | .string _ => true
  | .array _ vs => fitItems vs
  | .table _ ms => fitMembers ms

def fitItems : List Node → Bool
  | [] => true
  | v :: vs => fits v && fitItems vs

def fitMembers : List (Text × Node) → Bool
  | [] => true
  | (_, v) :: ms => fits v && fitMembers ms

end

end Node

structure Table where
  origin : Origin
  members : List (Text × Node) := []

namespace Table

def get? (k : Text) (ms : List (Text × Node)) : Option Node := (ms.find? (·.1 == k)).map (·.2)

def set (k : Text) (v : Node) : List (Text × Node) → List (Text × Node)
  | [] => [(k, v)]
  | (k', v') :: ms => if k' = k then (k, v) :: ms else (k', v') :: set k v ms

def node (t : Table) : Node := .table t.origin t.members

/-- Changes the table at the end of a path. Tables that are missing on the way are made, and an
array of tables stands for its last one. A path of a key with several parts does not enter tables
that have a header, and those that are only parents so far it makes its own. -/
def modifyAt (dotted : Bool) : List Text → (Table → Option Table) → Table → Option Table
  | [], f, t => f t
  | k :: ks, f, t =>
    match get? k t.members with
    | none => do
      let u ← modifyAt dotted ks f { origin := if dotted then .dotted else .parent }
      return { t with members := set k u.node t.members }
    | some (.table o ms) =>
      if o = .braces ∨ (dotted ∧ o = .header) then none
      else do
        let u ← modifyAt dotted ks f ⟨if dotted then .dotted else o, ms⟩
        return { t with members := set k u.node t.members }
    | some (.array true vs) =>
      match vs.getLast? with
      | some (.table o ms) => do
        let u ← modifyAt dotted ks f ⟨o, ms⟩
        return { t with members := set k (.array true (vs.dropLast ++ [u.node])) t.members }
      | _ => none
    | some _ => none

/-- Adds a value under a new key. Keys with several parts add only to tables made by such keys, and
keys of one part only to others. -/
def add (several : Bool) (k : Text) (v : Node) (t : Table) : Option Table :=
  if several = (t.origin == .dotted) ∧ (get? k t.members).isNone then
    some { t with members := set k v t.members }
  else none

def addAt (ks : List Text) (v : Node) (t : Table) : Option Table := do
  let k ← ks.getLast?
  modifyAt true ks.dropLast (add (1 < ks.length) k v) t

def openTable (ks : List Text) (t : Table) : Option Table := do
  let k ← ks.getLast?
  modifyAt false ks.dropLast (fun u =>
    match get? k u.members with
    | none => some { u with members := set k (.table .header []) u.members }
    | some (.table .parent ms) => some { u with members := set k (.table .header ms) u.members }
    | some _ => none) t

def openItem (ks : List Text) (t : Table) : Option Table := do
  let k ← ks.getLast?
  modifyAt false ks.dropLast (fun u =>
    match get? k u.members with
    | none => some { u with members := set k (.array true [.table .header []]) u.members }
    | some (.array true vs) =>
      some { u with members := set k (.array true (vs ++ [.table .header []])) u.members }
    | some _ => none) t

end Table

mutual

/-- A value with at most `depth` levels; `fuel` bounds the number of parts. -/
def value (fuel depth : Nat) (t : Text) : Option (Node × Text) :=
  match fuel with
  | 0 => none
  | fuel + 1 =>
    match string? t with
    | some r => r.map fun (s, u) => (.string s, u)
    | none =>
      match t with
      | '[' :: u =>
        if depth = 0 then none
        else (items fuel (depth - 1) [] u).map fun (vs, r) => (.array false vs, r)
      | '\x7b' :: u =>
        if depth = 0 then none
        else (members fuel (depth - 1) { origin := .header } u).map fun (m, r) =>
          (.table .braces m.members, r)
      | t => (scalar? (word t).1).map fun s => (.scalar s, (word t).2)

def items (fuel depth : Nat) (done : List Node) (t : Text) : Option (List Node × Text) :=
  match fuel with
  | 0 => none
  | fuel + 1 => do
    match ← skipBlank false t with
    | ']' :: u => return (done, u)
    | t =>
      let (v, u) ← value fuel depth t
      match ← skipBlank false u with
      | ',' :: r => items fuel depth (done ++ [v]) r
      | ']' :: r => return (done ++ [v], r)
      | _ => none

/-- The members of a table in braces up to the closing one. Lines may end around every sign. -/
def members (fuel depth : Nat) (done : Table) (t : Text) : Option (Table × Text) :=
  match fuel with
  | 0 => none
  | fuel + 1 => do
    match ← skipBlank false t with
    | '\x7d' :: u => return (done, u)
    | t =>
      let (k, u) ← key t
      let '=' :: u ← skipBlank false u | none
      let (v, u) ← value fuel depth (← skipBlank false u)
      let done ← done.addAt k v
      match ← skipBlank false u with
      | ',' :: r => members fuel depth done r
      | '\x7d' :: r => return (done, r)
      | _ => none

end

def pair (t : Text) : Option (List Text × Node × Text) := do
  let (k, t) ← key t
  let '=' :: t := t | none
  let (v, t) ← value (2 * t.length + 2) maxDepth (skipSpace t)
  return (k, v, t)

/-- A header behind its opening bracket: whether it is in double brackets, and its path. -/
def header : Text → Option (Bool × List Text × Text)
  | '[' :: t => do
    let (k, t) ← key (skipSpace t)
    let ']' :: ']' :: t := t | none
    return (true, k, t)
  | t => do
    let (k, t) ← key (skipSpace t)
    let ']' :: t := t | none
    return (false, k, t)

/-- The lines of a document, below the header of path `path`; at most `fuel` of them. -/
def lines : Nat → List Text → Table → Text → Option Table
  | 0, _, _, _ => none
  | fuel + 1, path, doc, t => do
    match ← skipBlank false t with
    | [] => return doc
    | '[' :: u =>
      let (several, k, r) ← header u
      let doc ← if several then doc.openItem k else doc.openTable k
      lines fuel k doc (← afterLine r)
    | t =>
      let (k, v, r) ← pair t
      let doc ← Table.modifyAt false path (Table.addAt k v) doc
      lines fuel path doc (← afterLine r)

/-- The table of a document. A byte order mark at its front is passed over. -/
def read (t : Text) : Option Table :=
  let t := match t with
    | '\uFEFF' :: u => u
    | t => t
  lines (t.length + 1) [] { origin := .header } t

end StorageClient.Toml
