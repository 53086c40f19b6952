import Chip8.Fault

/-!
# Keypad

Sixteen keys, each down or up. Keys are asked for by number; a number from sixteen on is refused.
-/
namespace Chip8

/-- Number of keys. -/
def keyCount : Nat := 16

/-- Which keys are down. -/
structure Keypad where
  keys : Vector Bool keyCount
  deriving DecidableEq, Repr

namespace Keypad

/-- No key down. -/
def released : Keypad := ⟨Vector.replicate keyCount false⟩

instance : Inhabited Keypad := ⟨released⟩

/-- Presses or releases a key. -/
def set (k : Keypad) (key : Nat) (pressed : Bool) : Except Fault Keypad :=
  if h : key < keyCount then .ok ⟨k.keys.set key pressed⟩ else .error (.invalidKey key)

/-- Whether a key is down. -/
def isDown (k : Keypad) (key : Nat) : Except Fault Bool :=
  if h : key < keyCount then .ok k.keys[key] else .error (.invalidKey key)

/-- The lowest key that is down. -/
def lowestDown (k : Keypad) : Option Nat := k.keys.toList.findIdx? id

/-- The state of every key, lowest first. -/
def text (k : Keypad) : String :=
  "Keypad \x7b keys: [" ++ ", ".intercalate (k.keys.toList.map toString) ++ "] \x7d"

end Keypad

end Chip8
