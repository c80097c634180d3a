import StorageClient.Program.Run
import StorageClient.Screen.Display

/-!
Control sequences that show a frame on a terminal.
-/

namespace StorageClient.Paint

def escape (s : String) : Text := '\x1b' :: '[' :: s.toList

def enter (title : Text) : Text :=
  escape "?1049h" ++ '\x1b' :: ']' :: '0' :: ';' :: title ++ ['\x07']

def leave : Text := escape "?25h" ++ escape "?1049l"

/-- The number of a colour among the colours of text. -/
def colorNumber : Color → Nat
  | .reset => 39
  | .black => 30
  | .green => 32
  | .yellow => 33
  | .cyan => 36

def look (l : Look) : Text :=
  escape "0" ++ (if l.bold then ";1".toList else []) ++ ';' :: Nat.toDigits 10 (colorNumber l.fg) ++
    ';' :: Nat.toDigits 10 (colorNumber l.bg + 10) ++ ['m']

def moveTo (x y : Nat) : Text :=
  '\x1b' :: '[' :: Nat.toDigits 10 (y + 1) ++ ';' :: Nat.toDigits 10 (x + 1) ++ ['H']

def cells (y : Nat) (cs : List (Nat × Cell)) : Text :=
  cs.flatMap fun (x, c) => moveTo x y ++ look c.look ++ c.shown

/-- What a frame changes on a terminal, and the cursor where it is shown. -/
def frame (d : Display) (f : Frame) : Text :=
  let wipe := if d.grid.area = f.grid.area then [] else escape "2J"
  let rows := (d.sent f.grid).zipIdx.flatMap fun (cs, y) => cells y cs
  let cursor := match f.cursor with
    | some (x, y) => escape "?25h" ++ moveTo x y
    | none => []
  escape "?25l" ++ wipe ++ rows ++ cursor

end StorageClient.Paint
