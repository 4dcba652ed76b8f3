import HartScope.Json.Reader

/-!
Configuration.  Every setting has a default; a document names those that differ, in four sections.
Names that are not settings are ignored.
-/

namespace HartScope

structure GeneralConfig where
  /-- Run the program to its end without a command loop. -/
  batch : Bool := false
  /-- Runs with a smaller budget echo each instruction. -/
  echoLimit : UInt64 := 10
deriving DecidableEq, Repr

structure MemoryConfig where
  base : UInt64 := 0x80000000
  size : UInt64 := 0x8000000
deriving DecidableEq, Repr

structure TraceConfig where
  instructions : Bool := true
  /-- Capacity of the instruction ring. -/
  ringCapacity : Nat := 32
  calls : Bool := true
  watchpoints : Bool := true
deriving DecidableEq, Repr

structure ReferenceConfig where
  library : Option String := none
  tcpPort : Nat := 1234
deriving DecidableEq, Repr

structure Config where
  general : GeneralConfig := {}
  memory : MemoryConfig := {}
  trace : TraceConfig := {}
  reference : ReferenceConfig := {}
deriving DecidableEq, Repr

namespace Config

open JsonValue

def word? (value : JsonValue) : Option UInt64 :=
  (value.below? UInt64.size).map UInt64.ofNat

/-- A path, or null for none. -/
def path? : JsonValue → Option (Option String)
  | .null => some none
  | value => value.text?.map some

def general? (value : JsonValue) : Option GeneralConfig := do
  let record ← JsonRecord.ofValue? ["batch", "max_inst_to_print"] value
  return {
    batch := ← record.field? "batch" bool? false
    echoLimit := ← record.field? "max_inst_to_print" word? 10 }

def memory? (value : JsonValue) : Option MemoryConfig := do
  let record ← JsonRecord.ofValue? ["base", "size"] value
  return {
    base := ← record.field? "base" word? 0x80000000
    size := ← record.field? "size" word? 0x8000000 }

def trace? (value : JsonValue) : Option TraceConfig := do
  let record ← JsonRecord.ofValue? ["itrace", "iringbuf_size", "ftrace", "watchpoints"] value
  return {
    instructions := ← record.field? "itrace" bool? true
    ringCapacity := ← record.field? "iringbuf_size" (below? UInt64.size) 32
    calls := ← record.field? "ftrace" bool? true
    watchpoints := ← record.field? "watchpoints" bool? true }

def reference? (value : JsonValue) : Option ReferenceConfig := do
  let record ← JsonRecord.ofValue? ["ref_so", "port"] value
  return {
    library := ← record.field? "ref_so" path? none
    tcpPort := ← record.field? "port" (below? UInt16.size) 1234 }

def ofValue? (value : JsonValue) : Option Config := do
  let record ← JsonRecord.ofValue? ["general", "memory", "trace", "difftest"] value
  return {
    general := ← record.field? "general" general? {}
    memory := ← record.field? "memory" memory? {}
    trace := ← record.field? "trace" trace? {}
    reference := ← record.field? "difftest" reference? {} }

def ofJson? (source : String) : Option Config :=
  (JsonReader.document? source).bind ofValue?

end Config

end HartScope
