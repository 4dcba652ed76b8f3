import HartScope.Device.Basic

/-!
Transmit-only serial line.  A byte stored to the data register at offset zero joins the transmit
buffer, which goes to the host on a newline or when it is full.  A store of four or eight bytes
transmits its low byte once.
-/

namespace HartScope

structure Serial where
  base : UInt64
  buffer : Array UInt8 := #[]
deriving DecidableEq, Repr

namespace Serial

def capacity : Nat := 4096

def newline : UInt8 := 10

def transmit (serial : Serial) (byte : UInt8) : Serial × List UInt8 :=
  let buffer := serial.buffer.push byte
  if byte = newline ∨ capacity ≤ buffer.size then ({ serial with buffer := #[] }, buffer.toList)
  else ({ serial with buffer := buffer }, [])

def writeByte (serial : Serial) (offset : UInt64) (byte : UInt8) : Serial × List UInt8 :=
  if offset = 0 then serial.transmit byte else (serial, [])

def write? (serial : Serial) (width : Width) (offset value : UInt64) :
    Option (Serial × List UInt8) :=
  match width with
  | .byte | .half => Device.writeWide? writeByte serial width offset value
  | .word | .double => some (serial.writeByte offset value.toUInt8)

instance : Device Serial where
  name _ := "serial"
  window serial := ⟨serial.base, 8⟩
  readByte serial _ := (0, serial)
  writeByte := writeByte
  write? := write?
  close serial := serial.buffer.toList

end Serial

end HartScope
