import StorageClient.Toml.Document

/-!
The settings of the client: built-in values, those of a configuration file, and those of the
command line, which win.
-/

namespace StorageClient

structure ServerSettings where
  host : Text := "localhost".toList
  port : Nat := 8080
deriving DecidableEq, Repr

structure LogSettings where
  filter : Text := "info".toList
  directory : Option Text := none
deriving DecidableEq, Repr

structure Config where
  server : ServerSettings := {}
  log : LogSettings := {}
deriving DecidableEq, Repr

structure Overrides where
  host : Option Text := none
  port : Option Nat := none
  logFilter : Option Text := none
deriving DecidableEq, Repr

namespace Config
open Toml

def override (c : Config) (o : Overrides) : Config :=
  { server := { host := o.host.getD c.server.host, port := o.port.getD c.server.port }
    log := { c.log with filter := o.logFilter.getD c.log.filter } }

def textSetting : Node → Option Text
  | .string t => some t
  | _ => none

def portSetting : Node → Option Nat
  | .scalar (.integer n) => if 0 ≤ n ∧ n ≤ 65535 then some n.toNat else none
  | _ => none

/-- Reads a setting if it is there, otherwise takes what is built in. -/
def setting {α : Type} (read : Node → Option α) (builtIn : α) : Option Node → Option α
  | none => some builtIn
  | some v => read v

/-- The settings of a section by their places in the list of names. A section is a table, or an
array of values in the order of the names; settings of other names or places are passed over. A time
counts as a table of other names. -/
def fieldsOf? (names : List String) : Option Node → Option (List (Option Node))
  | none => some (names.map fun _ => none)
  | some (.table _ ms) => some (names.map fun n => Table.get? n.toList ms)
  | some (.array _ vs) => some (names.zipIdx.map fun (_, i) => vs[i]?)
  | some (.scalar .time) => some (names.map fun _ => none)
  | some _ => none

/-- Whether a member of a document can be passed over where it says nothing: its numbers have to be
representable, but places of a section that have no name are not looked at. -/
def isSound : Text × Node → Bool
  | (k, .array ofTables vs) =>
    k = "server".toList || k = "logging".toList || (Node.array ofTables vs).fits
  | (_, v) => v.fits

def ofTable (doc : Table) : Option Config := do
  if !doc.members.all isSound then none
  let builtIn : Config := {}
  let [host, port] ← fieldsOf? ["host", "port"] (Table.get? "server".toList doc.members) | none
  let [filter, directory] ←
    fieldsOf? ["filter", "directory"] (Table.get? "logging".toList doc.members) | none
  return {
    server := {
      host := ← setting textSetting builtIn.server.host host
      port := ← setting portSetting builtIn.server.port port }
    log := {
      filter := ← setting textSetting builtIn.log.filter filter
      directory := ← setting (fun v => (textSetting v).map some) none directory } }

def read? (t : Text) : Option Config := do ofTable (← Toml.read t)

end Config

end StorageClient
