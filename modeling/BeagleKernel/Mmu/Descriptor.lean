import BeagleKernel.Mmu.PageTable

/-!
# Reading a descriptor back

`log_l1_pte` takes an entry of the table apart into the fields it prints. It knows no
supersections, and reports an entry with their bit as an error.
-/

namespace BeagleKernel.Mmu

/-- The four types of an entry. -/
inductive SectionType
  | invalid
  | page
  | sect
  | reserved
  deriving DecidableEq

/-- `type_str`. -/
def SectionType.typeStr : SectionType → String
  | invalid => "Invalid"
  | page => "Page"
  | sect => "Section"
  | reserved => "Reserved"

/-- The `switch` over the low bits. -/
def sectionType (value : UInt32) : SectionType :=
  if value &&& 0x3 = 0x0 then .invalid
  else if value &&& 0x3 = 0x1 then .page
  else if value &&& 0x3 = 0x2 then .sect
  else .reserved

/-- What the log has of an entry. -/
structure L1PageTableEntry where
  base : UInt32
  b : UInt32
  c : UInt32
  ap2 : UInt32
  ap : UInt32
  tex : UInt32
  domain : UInt32
  nG : UInt32
  s : UInt32
  xn : UInt32
  ns : UInt32
  type : SectionType

/-- The field of bit 18. -/
def supersection (value : UInt32) : UInt32 := (value >>> 18) &&& 1

def supersectionError : String :=
  "Error: Supersection not supported on hardware, bit should not be set\n"

/-- `log_l1_pte`. -/
def logL1Pte (value : UInt32) : Except String L1PageTableEntry :=
  if supersection value ≠ 0 then .error supersectionError
  else .ok
    { base := value &&& 0xFFF00000
      b := (value >>> 2) &&& 1
      c := (value >>> 3) &&& 1
      ap2 := (value >>> 15) &&& 0x1
      ap := (value >>> 10) &&& 0x3
      tex := (value >>> 12) &&& 0x7
      domain := (value >>> 5) &&& 0xF
      nG := (value >>> 17) &&& 1
      s := (value >>> 16) &&& 1
      xn := (value >>> 4) &&& 1
      ns := (value >>> 19) &&& 1
      type := sectionType value }

/-- `log_vaddr_mappings`, less the line of the address itself. -/
def logVaddrMappings (l1 : L1Table) (vaddr : UInt32) : Except String L1PageTableEntry :=
  logL1Pte (l1 (getL1Index vaddr))

/-- The log shows a section of one megabyte for the address. -/
def LogsSection (l1 : L1Table) (vaddr : UInt32) : Prop :=
  ∃ pte, logVaddrMappings l1 vaddr = .ok pte ∧ pte.type = .sect

end BeagleKernel.Mmu
