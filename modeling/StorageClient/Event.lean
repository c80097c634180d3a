import StorageClient.Text.Basic

/-!
What a terminal reports: keys, a new size, and events that the program has no use for.
-/

namespace StorageClient

inductive MediaKey where
  | play
  | pause
  | playPause
  | reverse
  | stop
  | fastForward
  | rewind
  | trackNext
  | trackPrevious
  | record
  | lowerVolume
  | raiseVolume
  | muteVolume
deriving DecidableEq, Repr

/-- The keys that modify others, where a terminal reports them on their own. -/
inductive ModifierKey where
  | leftShift
  | leftControl
  | leftAlt
  | leftSuper
  | leftHyper
  | leftMeta
  | rightShift
  | rightControl
  | rightAlt
  | rightSuper
  | rightHyper
  | rightMeta
  | isoLevel3Shift
  | isoLevel5Shift
deriving DecidableEq, Repr

inductive KeyCode where
  | char (c : Char)
  | enter
  | esc
  | backspace
  | tab
  | backTab
  | left
  | right
  | up
  | down
  | home
  | endKey
  | pageUp
  | pageDown
  | delete
  | insert
  | null
  | capsLock
  | scrollLock
  | numLock
  | printScreen
  | pause
  | menu
  | keypadBegin
  | function (n : Nat)
  | media (k : MediaKey)
  | modifier (k : ModifierKey)
deriving DecidableEq, Repr

structure Modifiers where
  shift : Bool := false
  ctrl : Bool := false
  alt : Bool := false
  superKey : Bool := false
  hyperKey : Bool := false
  metaKey : Bool := false
deriving DecidableEq, Repr

/-- Whether none but shift is held. -/
def Modifiers.atMostShift (m : Modifiers) : Bool :=
  !(m.ctrl || m.alt || m.superKey || m.hyperKey || m.metaKey)

/-- A key goes down, repeats while it is down, and comes up. -/
inductive KeyKind where
  | press
  | repeated
  | release
deriving DecidableEq, Repr

structure Key where
  code : KeyCode
  mods : Modifiers := {}
  kind : KeyKind := .press
deriving DecidableEq, Repr

/-- The character a key types, if it types one: no control character, and no modifier but
shift. -/
def Key.typed? (k : Key) : Option Char :=
  match k.code with
  | .char c => if !Text.isControl c && k.mods.atMostShift then some c else none
  | _ => none

inductive Event where
  | key (k : Key)
  | resize (width height : Nat)
  | paste (t : Text)
  | focus (gained : Bool)
  | mouse (x y : Nat)
deriving DecidableEq, Repr

/-- The events that the program waits for: keys that go or stay down, and new sizes. -/
def Event.isUsed : Event → Bool
  | .key k => k.kind != .release
  | .resize .. => true
  | _ => false

theorem Key.code_of_typed? {k : Key} {c : Char} (h : k.typed? = some c) : k.code = .char c := by
  unfold typed? at h
  split at h
  · next d hd =>
    split at h
    · cases h
      exact hd
    · cases h
  · cases h

theorem Key.not_isControl_of_typed? {k : Key} {c : Char} (h : k.typed? = some c) :
    Text.isControl c = false := by
  unfold typed? at h
  split at h
  · split at h
    · simp_all
    · simp at h
  · simp at h

end StorageClient
