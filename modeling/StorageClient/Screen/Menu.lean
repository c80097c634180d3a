import StorageClient.Event
import StorageClient.Screen.Draw

/-!
A choice from a list of entries. The selection wraps around at both ends.
-/

namespace StorageClient

@[ext]
structure Menu where
  selected : Nat
  count : Nat
  count_pos : 0 < count
deriving Repr

namespace Menu

instance : DecidableEq Menu := fun _ _ => decidable_of_iff' _ Menu.ext_iff

def start (n : Nat) : Menu := ⟨0, max n 1, Word.max_one_pos n⟩

def handle (m : Menu) (k : Key) : Except Fault (Menu × Option Nat) :=
  match k.code with
  | .up => do
    Word.check (m.selected + m.count) 0
    return ({ m with selected := (m.selected + m.count - 1) % m.count }, none)
  | .down => return ({ m with selected := (m.selected + 1) % m.count }, none)
  | .enter => return (m, some m.selected)
  | _ => return (m, none)

def entry (room selected index : Nat) (label : Text) : Draw.Line :=
  let shown := Text.clip label room
  if index = selected then ⟨'>' :: ' ' :: shown, .highlight⟩ else ⟨' ' :: ' ' :: shown, .plain⟩

def draw (m : Menu) (title : Text) (labels : List Text) (area : Rect) : List Stroke :=
  let list : Rect :=
    ⟨Word.satAdd16 area.x 4, Word.satAdd16 area.y 2, area.width - 8, area.height - 3⟩
  Draw.block area area title ++
    Draw.paragraph area list (labels.zipIdx.map fun (l, i) => entry list.width m.selected i l)

end Menu

end StorageClient
