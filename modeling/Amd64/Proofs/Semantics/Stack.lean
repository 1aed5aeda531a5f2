import Amd64.Proofs.Machine.Binding
import Amd64.Proofs.Machine.Run
import Amd64.Proofs.Machine.Views
import Amd64.Proofs.Memory.Halves
import Amd64.Proofs.Memory.Ranges
import Amd64.Proofs.Semantics.Precise.Integer

namespace Amd64

/-!
# Last in, first out

What instructions put on the stack is taken off again in the opposite order.

* `Push`, `Pop`             — instructions that put an operand on the stack, and that take a register off it;
* `Machine.StackPermits`    — the bytes below the stack pointer may be used;
* `Exec.outcome_pushValue`, `Machine.Pushed` — one number on the stack, and what all of them leave;
* `Exec.exists_executes_pushes`, `Exec.exists_executes_pops` — many of each, by induction;
* `Machine.RoundTrip`       — as many off the stack as on it;
* `Machine.CallReturn`      — a call and a return;
* `Machine.PopsTo`, `Address.effective_bind_rsp` — the stack pointer as an operand, and in the address of one;
* `Exec.last_in_first_out`  — all of this for an address space.
-/

/-! ### Registers -/

namespace Cpu

variable (s : Cpu) {g h : Gpr} {r : Reg} (v x : UInt64)

/-- The last write to a register counts. -/
theorem setGpr_setGpr_self (g : Gpr) : (s.setGpr g x).setGpr g v = s.setGpr g v := by
  simp [setGpr]

/-- A register may be replaced by itself. -/
theorem setGpr_gpr_self (g : Gpr) : s.setGpr g (s.gpr g) = s := by
  simp [setGpr, gpr]

/-- Writes to different registers change places. -/
theorem setGpr_comm (ne : g ≠ h) : (s.setGpr g v).setGpr h x = (s.setGpr h x).setGpr g v := by
  have hi : g.index.val ≠ h.index.val := fun e => ne (Gpr.index_inj (Fin.ext e))
  simp only [setGpr, Vector.set_comm _ _ hi]

/-- Views of different registers do not meet. -/
theorem writeReg_setGpr_of_ne (ne : r.gpr ≠ g) : (s.setGpr g x).writeReg r v = (s.writeReg r v).setGpr g x := by
  cases r with
  | low h w =>
    have hne : g ≠ h := Ne.symm ne
    cases w <;> simp only [writeReg, gpr_setGpr_of_ne s x hne, setGpr_comm s x _ hne]
  | high h =>
    have hne : g ≠ h := Ne.symm ne
    simp only [writeReg, gpr_setGpr_of_ne s x hne, setGpr_comm s x _ hne]

/-- A view takes the bits of its own width. -/
theorem writeReg_truncate (g : Gpr) (w : Width) : s.writeReg (.low g w) (w.truncate v) = s.writeReg (.low g w) v := by
  cases w with
  | w8 => simp only [writeReg, Width.truncate_truncate]
  | w16 => simp only [writeReg, Width.truncate_truncate]
  | w32 => simp only [writeReg, Width.truncate_truncate]
  | w64 =>
    have hall : Width.w64.truncate v = v := by
      rw [← UInt64.toNat_inj, Width.toNat_truncate]
      exact Nat.mod_eq_of_lt v.toNat_lt
    rw [hall]

end Cpu

/-! ### Instructions -/

/-- An instruction that puts an operand on the stack, and the number that it puts there. -/
structure Push where
  instruction : Instruction
  source : Operand
  width : Width
  value : UInt64
  operation_eq : instruction.operation = .push source width

/-- An instruction that takes a register other than the stack pointer off the stack. -/
structure Pop where
  instruction : Instruction
  target : Gpr
  width : Width
  operation_eq : instruction.operation = .pop (.reg (.low target width)) width
  target_ne : target ≠ .rsp

namespace Push

/-- The bytes of the number. -/
def bytes (p : Push) : List UInt8 :=
  LittleEndian.bytes p.width.bytes p.value.toNat

/-- What is on the stack after pushes, from the stack pointer on: what was pushed last comes first. -/
def laid (ps : List Push) : List UInt8 :=
  ps.reverse.flatMap bytes

/-- How many bytes pushes take. -/
def total (ps : List Push) : Nat :=
  (ps.map fun p => p.width.bytes).sum

/-- Where it is executed after those before it, each push finds its number in its operand. -/
def Yield : List Push → Machine Memory → Prop
  | [], _ => True
  | p :: ps, m =>
    (outcome ((p.source.bind p.instruction.next).read p.width) m).1 = .ok p.value ∧
      Yield ps (outcome (Exec.retire p.instruction p.instruction.binding) m).2

/-- A push lays the bytes of its width. -/
@[simp] theorem length_bytes (p : Push) : p.bytes.length = p.width.bytes :=
  LittleEndian.length_bytes _ _

/-- The last push is at the lowest address. -/
theorem laid_cons (p : Push) (ps : List Push) : laid (p :: ps) = laid ps ++ p.bytes := by
  simp [laid]

/-- All bytes of all pushes are laid. -/
theorem length_laid (ps : List Push) : (laid ps).length = total ps := by
  induction ps with
  | nil => rfl
  | cons p ps ih => rw [laid_cons, List.length_append, ih, length_bytes, total, total, List.map_cons,
      List.sum_cons, Nat.add_comm]

end Push

/-- The registers after what was pushed was taken off the stack, but for the stack pointer. -/
def Cpu.popped (s : Cpu) (pops : List Pop) (pushes : List Push) : Cpu :=
  (pops.zip pushes).foldl (fun s x => s.writeReg (.low x.1.target x.1.width) x.2.value) s

/-! ### One number -/

namespace Machine

/-- The stack pointer has `n` addresses below it, and all of them permit the access. -/
structure StackPermits (m : Machine Memory) (access : Access) (n : Nat) : Prop where
  le : n ≤ (m.cpu.gpr .rsp).toNat
  permits : m.bus.AllPermit access ((m.cpu.gpr .rsp).toNat - n) n

/-- From `m` to `m'`, the stack has grown by the bytes `xs`, and nothing else has changed but the instruction
    pointer. -/
structure Pushed (m m' : Machine Memory) (xs : List UInt8) : Prop where
  cpu : m'.cpu = (m.cpu.setGpr .rsp (m.cpu.gpr .rsp - UInt64.ofNat xs.length)).setRip m'.cpu.rip
  wellFormed : m'.bus.table.WellFormed
  laid : m.bus.Overlaid m'.bus ((m.cpu.gpr .rsp).toNat - xs.length) xs

variable {m m₁ m' : Machine Memory} {access : Access} {xs ys : List UInt8} {n : Nat}

/-- An address that has room below it is not wrapped. -/
theorem toNat_sub_ofNat {a : UInt64} (h : n ≤ a.toNat) : (a - UInt64.ofNat n).toNat = a.toNat - n := by
  have hn : (UInt64.ofNat n).toNat = n := UInt64.toNat_ofNat_of_lt (Nat.lt_of_le_of_lt h a.toNat_lt)
  rw [UInt64.toNat_sub_of_le _ _ (UInt64.le_iff_toNat_le.mpr (by rwa [hn])), hn]

namespace Pushed

/-- The stack pointer is below what was pushed. -/
theorem rsp (h : m.Pushed m' xs) : m'.cpu.gpr .rsp = m.cpu.gpr .rsp - UInt64.ofNat xs.length := by
  rw [h.cpu]
  exact Cpu.gpr_setGpr_self _ _ _

/-- What was pushed is on the stack, if it may be read. -/
theorem holdsBytes (h : m.Pushed m' xs) (hread : m.StackPermits .read xs.length) :
    m'.bus.HoldsBytes (m'.cpu.gpr .rsp).toNat xs.length xs := by
  rw [h.rsp, toNat_sub_ofNat hread.le]
  exact h.laid.holdsBytes_self hread.permits

theorem refl (h : m.bus.table.WellFormed) : m.Pushed m [] := by
  refine ⟨?_, h, m.bus.overlaid_nil _⟩
  have hrsp : m.cpu.gpr .rsp - UInt64.ofNat ([] : List UInt8).length = m.cpu.gpr .rsp := UInt64.sub_zero _
  rw [hrsp, Cpu.setGpr_gpr_self]
  rfl

/-- What is pushed later lies below. -/
theorem append (h : m.Pushed m₁ xs) (h' : m₁.Pushed m' ys)
    (hroom : ys.length + xs.length ≤ (m.cpu.gpr .rsp).toNat) : m.Pushed m' (ys ++ xs) := by
  have hlength : (ys ++ xs).length = ys.length + xs.length := List.length_append
  have hrsp := toNat_sub_ofNat (show xs.length ≤ (m.cpu.gpr .rsp).toNat by omega)
  have hlower : (m.cpu.gpr .rsp).toNat - xs.length = (m.cpu.gpr .rsp).toNat - (ys ++ xs).length + ys.length := by
    omega
  have hbase : (m.cpu.gpr .rsp).toNat - (ys ++ xs).length = (m.cpu.gpr .rsp).toNat - xs.length - ys.length := by
    omega
  refine ⟨?_, h'.wellFormed, ?_⟩
  · have hsum : m.cpu.gpr .rsp - UInt64.ofNat xs.length - UInt64.ofNat ys.length =
        m.cpu.gpr .rsp - UInt64.ofNat (ys ++ xs).length := by
      rw [← UInt64.toNat_inj, toNat_sub_ofNat (by omega), hrsp, toNat_sub_ofNat (by omega), hbase]
    rw [h'.cpu, h.rsp, hsum, h.cpu]
    exact congrArg (·.setRip m'.cpu.rip) (Cpu.setGpr_setGpr_self (m.cpu.setRip _) _ _ _)
  · have hlaid := h'.laid
    rw [h.rsp, hrsp, ← hbase] at hlaid
    exact (hlower ▸ h.laid).prepend hlaid

end Pushed

namespace StackPermits

/-- Bytes directly below the stack pointer, of a range that may be used. -/
theorem upper {k : Nat} (h : m.StackPermits access (n + k)) : m.StackPermits access k := by
  have hle := h.le
  exact ⟨by omega, fun x hx hlt => h.permits x (by omega) (by omega)⟩

/-- The others are below the stack pointer after these were pushed. -/
theorem lower (h : m.StackPermits access (n + xs.length)) (hpushed : m.Pushed m₁ xs) : m₁.StackPermits access n := by
  have hle := h.le
  have hrsp := toNat_sub_ofNat (show xs.length ≤ (m.cpu.gpr .rsp).toNat by omega)
  refine ⟨by rw [hpushed.rsp, hrsp]; omega, ?_⟩
  rw [hpushed.rsp, hrsp, hpushed.laid.allPermit_iff]
  exact fun x hx hlt => h.permits x (by omega) (by omega)

end StackPermits

end Machine

namespace Exec

variable {m m₁ m' : Machine Memory} {w : Width} {v : UInt64}

/-- A number is pushed where its bytes may be written. -/
theorem outcome_pushValue (hm : m.bus.table.WellFormed) (hroom : m.StackPermits .write w.bytes) (v : UInt64) :
    ∃ b : Memory, outcome (pushValue w v) m =
        (.ok (), ⟨m.cpu.setGpr .rsp (m.cpu.gpr .rsp - UInt64.ofNat w.bytes), b⟩) ∧
      ∀ rip, m.Pushed ⟨(m.cpu.setGpr .rsp (m.cpu.gpr .rsp - UInt64.ofNat w.bytes)).setRip rip, b⟩
        (LittleEndian.bytes w.bytes v.toNat) := by
  have hrsp := Machine.toNat_sub_ofNat hroom.le
  obtain ⟨b, hwrite, hwf, hlaid⟩ := Memory.writeWord_of_allPermit hm (hrsp.symm ▸ hroom.permits) v
  rw [hrsp] at hlaid
  have hlength := LittleEndian.length_bytes w.bytes v.toNat
  refine ⟨b, ?_, fun rip => ⟨?_, hwf, ?_⟩⟩
  · have hbus : outcome (Bus.writeWord w (m.cpu.gpr .rsp - UInt64.ofNat w.bytes) v : BusM Memory Unit) m.bus =
        (.ok (), b) := hwrite
    have haccess : outcome (access (Bus.writeWord w (m.cpu.gpr .rsp - UInt64.ofNat w.bytes) v)) m =
        (.ok (), ⟨m.cpu, b⟩) := by
      rw [outcome_access, hbus]
    simp only [pushValue, outcome_bind, outcome_cpu, haccess]
    rfl
  · rw [hlength]
    rfl
  · rw [hlength]
    exact hlaid

/-- A number is popped where its bytes are. -/
theorem outcome_popValue_of_holdsBytes (hm : m.bus.table.WellFormed)
    (htop : m.bus.HoldsBytes (m.cpu.gpr .rsp).toNat w.bytes (LittleEndian.bytes w.bytes v.toNat)) :
    outcome (popValue w) m =
      (.ok (w.truncate v), ⟨m.cpu.setGpr .rsp (m.cpu.gpr .rsp + UInt64.ofNat w.bytes), m.bus⟩) := by
  rw [outcome_popValue, Memory.readWord_of_holdsBytes hm htop]

/-! ### Many numbers -/

/-- Instructions that are executed one after the other, and proceed, lead from one machine to another. -/
inductive Executes {σ : Type} [Bus σ] : List Instruction → Machine σ → Machine σ → Prop where
  | nil (m : Machine σ) : Executes [] m m
  | cons {i : Instruction} {is : List Instruction} {m m₁ m' : Machine σ}
      (first : outcome (retire i i.binding) m = (.ok .proceed, m₁)) (rest : Executes is m₁ m') :
      Executes (i :: is) m m'

/-- Runs one behind the other are a run. -/
theorem Executes.append {is js : List Instruction} (h : Executes is m m₁) (h' : Executes js m₁ m') :
    Executes (is ++ js) m m' := by
  induction h with
  | nil => exact h'
  | cons first _ ih => exact .cons first (ih h')

/-- A push whose operand is its number leaves the bytes of the number on the stack. -/
theorem outcome_retire_push (p : Push) (hm : m.bus.table.WellFormed) (hroom : m.StackPermits .write p.width.bytes)
    (hread : (outcome ((p.source.bind p.instruction.next).read p.width) m).1 = .ok p.value) :
    ∃ m', outcome (retire p.instruction p.instruction.binding) m = (.ok .proceed, m') ∧ m.Pushed m' p.bytes := by
  have hwork : (p.instruction.execute p.instruction.binding : Exec Memory Outcome) = do
      push (p.source.bind p.instruction.next) p.width
      return .next p.instruction.next := by
    have hoperand : p.instruction.binding.get 0 = p.source.bind p.instruction.next :=
      Instruction.get_binding (by rw [p.operation_eq]; rfl)
    simp only [Instruction.execute, p.operation_eq, hoperand]
  obtain ⟨b, hpush, hpushed⟩ := outcome_pushValue hm hroom p.value
  refine ⟨_, ?_, hpushed p.instruction.next⟩
  rw [outcome_retire_next hwork, push, outcome_bind, Location.outcome_read_of_ok hread]
  simp only [hpush]

/-- **Pushes.** All together, pushes leave their bytes on the stack, the last ones lowest. -/
theorem exists_executes_pushes (ps : List Push) (hm : m.bus.table.WellFormed)
    (hroom : m.StackPermits .write (Push.total ps)) (hyield : Push.Yield ps m) :
    ∃ m', Executes (ps.map (·.instruction)) m m' ∧ m.Pushed m' (Push.laid ps) := by
  induction ps generalizing m with
  | nil => exact ⟨m, .nil m, .refl hm⟩
  | cons p ps ih =>
    have htotal : Push.total (p :: ps) = Push.total ps + p.bytes.length := by
      rw [p.length_bytes, Push.total, Push.total, List.map_cons, List.sum_cons, Nat.add_comm]
    rw [htotal] at hroom
    obtain ⟨m₁, hfirst, hpushed⟩ := outcome_retire_push p hm (p.length_bytes ▸ hroom.upper) hyield.1
    have hrest := hyield.2
    rw [hfirst] at hrest
    obtain ⟨m', hexecutes, hlaid⟩ := ih hpushed.wellFormed (hroom.lower hpushed) hrest
    refine ⟨m', .cons hfirst hexecutes, ?_⟩
    rw [Push.laid_cons]
    exact hpushed.append hlaid (by rw [Push.length_laid]; exact hroom.le)

/-- A pop takes the number whose bytes are on the stack. -/
theorem outcome_retire_pop (q : Pop) (hm : m.bus.table.WellFormed)
    (htop : m.bus.HoldsBytes (m.cpu.gpr .rsp).toNat q.width.bytes (LittleEndian.bytes q.width.bytes v.toNat)) :
    outcome (retire q.instruction q.instruction.binding) m =
      (.ok .proceed, ⟨((m.cpu.writeReg (.low q.target q.width) v).setGpr .rsp
        (m.cpu.gpr .rsp + UInt64.ofNat q.width.bytes)).setRip q.instruction.next, m.bus⟩) := by
  have hwork : (q.instruction.execute q.instruction.binding : Exec Memory Outcome) = do
      pop (.reg (.low q.target q.width)) q.width
      return .next q.instruction.next := by
    have hoperand : q.instruction.binding.get 0 = .reg (.low q.target q.width) :=
      Instruction.get_binding (k := 0) (o := .reg (.low q.target q.width)) (by rw [q.operation_eq]; rfl)
    simp only [Instruction.execute, q.operation_eq, hoperand]
  have hne : (Reg.low q.target q.width).gpr ≠ .rsp := q.target_ne
  rw [outcome_retire_next hwork]
  simp only [pop, outcome_bind, outcome_cpu, outcome_popValue_of_holdsBytes hm htop, outcome_tryCatch, Location.write,
    writeReg, outcome_modifyCpu, Cpu.writeReg_setGpr_of_ne _ _ _ hne, Cpu.writeReg_truncate]

end Exec

namespace Cpu

variable (s : Cpu) (x : UInt64)

/-- The first pop takes the last push. -/
theorem popped_cons (q : Pop) (qs : List Pop) (p : Push) (ps : List Push) :
    s.popped (q :: qs) (p :: ps) = (s.writeReg (.low q.target q.width) p.value).popped qs ps := rfl

/-- The instruction pointer is no register that is written. -/
theorem writeReg_setRip (r : Reg) (v : UInt64) : (s.setRip x).writeReg r v = (s.writeReg r v).setRip x := by
  cases r with
  | low g w => cases w <;> rfl
  | high g => rfl

/-- Pops do not look at the instruction pointer. -/
theorem popped_setRip (qs : List Pop) (ps : List Push) : (s.setRip x).popped qs ps = (s.popped qs ps).setRip x := by
  induction qs generalizing s ps with
  | nil => rfl
  | cons q qs ih =>
    cases ps with
    | nil => rfl
    | cons p ps => rw [popped_cons, popped_cons, writeReg_setRip, ih]

/-- Pops do not look at the stack pointer, and leave it. -/
theorem popped_setGpr_rsp (qs : List Pop) (ps : List Push) :
    (s.setGpr .rsp x).popped qs ps = (s.popped qs ps).setGpr .rsp x := by
  induction qs generalizing s ps with
  | nil => rfl
  | cons q qs ih =>
    cases ps with
    | nil => rfl
    | cons p ps =>
      have hne : (Reg.low q.target q.width).gpr ≠ .rsp := q.target_ne
      rw [popped_cons, popped_cons, writeReg_setGpr_of_ne _ _ _ hne, ih]

/-- Pops into other registers leave the stack pointer. -/
theorem gpr_rsp_popped (qs : List Pop) (ps : List Push) : (s.popped qs ps).gpr .rsp = s.gpr .rsp := by
  have hsame := s.popped_setGpr_rsp (s.gpr .rsp) qs ps
  rw [setGpr_gpr_self] at hsame
  rw [hsame, gpr_setGpr_self]

/-- A register that is no target of the pops stays. -/
theorem readReg_popped_of_notMem {r : Reg} (qs : List Pop) (ps : List Push) (h : r.gpr ∉ qs.map (·.target)) :
    (s.popped qs ps).readReg r = s.readReg r := by
  induction qs generalizing s ps with
  | nil => rfl
  | cons q qs ih =>
    cases ps with
    | nil => rfl
    | cons p ps =>
      rw [List.map_cons, List.mem_cons, not_or] at h
      have hne : (Reg.low q.target q.width).gpr ≠ r.gpr := Ne.symm h.1
      rw [popped_cons, ih _ _ h.2, readReg_writeReg_of_ne _ _ _ hne]

/-- Different registers have the numbers in the order of the pops. -/
theorem readReg_popped (qs : List Pop) (ps : List Push) (h : (qs.map (·.target)).Nodup) :
    ∀ x ∈ qs.zip ps,
      (s.popped qs ps).readReg (.low x.1.target x.1.width) = x.1.width.truncate x.2.value := by
  induction qs generalizing s ps with
  | nil => exact fun x hx => absurd hx List.not_mem_nil
  | cons q qs ih =>
    cases ps with
    | nil => exact fun x hx => absurd hx List.not_mem_nil
    | cons p ps =>
      rw [List.map_cons, List.nodup_cons] at h
      intro x hx
      rw [List.zip_cons_cons, List.mem_cons] at hx
      obtain rfl | hx := hx
      · rw [popped_cons, readReg_popped_of_notMem _ _ _ h.1, readReg_writeReg_self]
        rfl
      · exact ih _ ps h.2 x hx

end Cpu

/-! ### Back and forth -/

/-- What is different after pushes and pops of the same widths. -/
structure Machine.RoundTrip (m m' : Machine Memory) (pushes : List Push) (pops : List Pop) : Prop where
  /-- The targets have got the numbers, last pushed first; no other register is different, but for the instruction
      pointer. -/
  registers : m'.cpu = (m.cpu.popped pops pushes.reverse).setRip m'.cpu.rip
  /-- So different targets hold the numbers, cut to their widths. -/
  values : (pops.map (·.target)).Nodup → ∀ x ∈ pops.zip pushes.reverse,
    m'.cpu.readReg (.low x.1.target x.1.width) = x.1.width.truncate x.2.value
  rsp : m'.cpu.gpr .rsp = m.cpu.gpr .rsp
  /-- The bytes of the numbers are left below the stack pointer, and nothing else in memory is different. -/
  memory : m.bus.Overlaid m'.bus ((m.cpu.gpr .rsp).toNat - Push.total pushes) (Push.laid pushes)

namespace Exec

variable {m m₁ m' : Machine Memory}

/-- **Pops.** All together, pops take the numbers whose bytes are on the stack. -/
theorem exists_executes_pops (qs : List Pop) (ps : List Push) (hm : m.bus.table.WellFormed)
    (hwidths : qs.map (·.width) = ps.map (·.width))
    (htop : m.bus.HoldsBytes (m.cpu.gpr .rsp).toNat (ps.flatMap Push.bytes).length (ps.flatMap Push.bytes)) :
    ∃ m', Executes (qs.map (·.instruction)) m m' ∧ m'.bus = m.bus ∧
      m'.cpu = ((m.cpu.popped qs ps).setGpr .rsp
        (m.cpu.gpr .rsp + UInt64.ofNat (ps.flatMap Push.bytes).length)).setRip m'.cpu.rip := by
  induction qs generalizing m ps with
  | nil =>
    obtain rfl : ps = [] := List.map_eq_nil_iff.mp hwidths.symm
    refine ⟨m, .nil m, rfl, ?_⟩
    show m.cpu = (m.cpu.setGpr .rsp (m.cpu.gpr .rsp + 0)).setRip m.cpu.rip
    rw [UInt64.add_zero, Cpu.setGpr_gpr_self]
    rfl
  | cons q qs ih =>
    cases ps with
    | nil => exact nomatch hwidths
    | cons p ps =>
      obtain ⟨hwidth, hwidths⟩ := List.cons.inj hwidths
      have hwidth : p.width = q.width := hwidth.symm
      have hlength : p.bytes.length = q.width.bytes := hwidth ▸ p.length_bytes
      rw [List.flatMap_cons, List.length_append, Memory.holdsBytes_append_iff, hlength] at htop
      have hnumber := htop.1
      rw [Push.bytes, hwidth] at hnumber
      have hfirst := outcome_retire_pop q hm hnumber
      -- the next number is where the stack pointer is now
      have hplace : (m.cpu.gpr .rsp + UInt64.ofNat q.width.bytes).toNat = (m.cpu.gpr .rsp).toNat + q.width.bytes :=
        htop.1.allPermit.toNat_add (by cases q.width <;> decide)
      obtain ⟨s, hs⟩ : ∃ s, s = ((m.cpu.writeReg (.low q.target q.width) p.value).setGpr .rsp
        (m.cpu.gpr .rsp + UInt64.ofNat q.width.bytes)).setRip q.instruction.next := ⟨_, rfl⟩
      have hrsp : s.gpr .rsp = m.cpu.gpr .rsp + UInt64.ofNat q.width.bytes := by
        rw [hs]
        exact Cpu.gpr_setGpr_self _ _ _
      rw [← hs] at hfirst
      obtain ⟨m', hexecutes, hbus, hcpu⟩ := @ih ⟨s, m.bus⟩ ps hm hwidths (by rw [hrsp, hplace]; exact htop.2)
      refine ⟨m', .cons hfirst hexecutes, hbus, ?_⟩
      have hsum : s.gpr .rsp + UInt64.ofNat (ps.flatMap Push.bytes).length =
          m.cpu.gpr .rsp + UInt64.ofNat ((p :: ps).flatMap Push.bytes).length := by
        rw [hrsp, List.flatMap_cons, List.length_append, hlength, UInt64.ofNat_add, UInt64.add_assoc]
      rw [hcpu]
      show ((s.popped qs ps).setGpr .rsp _).setRip m'.cpu.rip = _
      rw [hsum, hs, Cpu.popped_setRip, Cpu.popped_setGpr_rsp, Cpu.popped_cons]
      exact congrArg (·.setRip m'.cpu.rip) (Cpu.setGpr_setGpr_self (Cpu.setRip _ _) _ _ _)

/-- **Back and forth.** Pops of the same widths in reverse order take what pushes have put on the stack. -/
theorem exists_executes_roundTrip (pushes : List Push) (pops : List Pop) (hm : m.bus.table.WellFormed)
    (hyield : Push.Yield pushes m) (hwrite : m.StackPermits .write (Push.total pushes))
    (hread : m.StackPermits .read (Push.total pushes))
    (hwidths : pops.map (·.width) = (pushes.map (·.width)).reverse) :
    ∃ m', Executes (pushes.map (·.instruction) ++ pops.map (·.instruction)) m m' ∧ m.RoundTrip m' pushes pops := by
  obtain ⟨m₁, hpushes, hpushed⟩ := exists_executes_pushes pushes hm hwrite hyield
  have hlength := Push.length_laid pushes
  have htop := hpushed.holdsBytes (hlength ▸ hread)
  obtain ⟨m', hpops, hbus, hcpu⟩ := exists_executes_pops pops pushes.reverse hpushed.wellFormed
    (by rw [hwidths, List.map_reverse]) htop
  -- the pops start at the last push and end where the pushes began
  have hback : m₁.cpu.gpr .rsp + UInt64.ofNat (Push.laid pushes).length = m.cpu.gpr .rsp := by
    rw [hpushed.rsp, UInt64.sub_add_cancel]
  have hregisters : m'.cpu = (m.cpu.popped pops pushes.reverse).setRip m'.cpu.rip := by
    rw [hcpu, ← Push.laid, hback, hpushed.cpu, Cpu.popped_setRip, Cpu.popped_setGpr_rsp]
    refine congrArg (·.setRip m'.cpu.rip) ((Cpu.setGpr_setGpr_self (Cpu.setRip _ _) _ _ _).trans ?_)
    rw [← Cpu.gpr_rsp_popped m.cpu pops pushes.reverse]
    exact Cpu.setGpr_gpr_self (Cpu.setRip _ _) _
  refine ⟨m', hpushes.append hpops, hregisters, fun hdistinct x hx => ?_, ?_, ?_⟩
  · rw [hregisters]
    exact m.cpu.readReg_popped pops pushes.reverse hdistinct x hx
  · rw [hregisters]
    exact m.cpu.gpr_rsp_popped pops pushes.reverse
  · rw [hbus, ← hlength]
    exact hpushed.laid

/-! ### Calls -/

end Exec

/-- The instruction calls what is at `target`. -/
def Instruction.CallsTo (i : Instruction) (m : Machine Memory) (target : UInt64) : Prop :=
  i.operation = .call target ∨
    ∃ src, i.operation = .callIndirect src ∧ (outcome ((src.bind i.next).read .w64) m).1 = .ok target

/-- What a call does, and what a return does that finds what the call has put on the stack. -/
structure Machine.CallReturn (m : Machine Memory) (call : Instruction) (target : UInt64)
    (m₁ : Machine Memory) : Prop where
  proceeds : outcome (Exec.retire call call.binding) m = (.ok .proceed, m₁)
  called : m₁.cpu.rip = target
  /-- The address behind the call is on the stack. -/
  pushed : m.Pushed m₁ (LittleEndian.bytes 8 call.next.toNat)
  /-- Whatever is executed between, if the stack pointer is where it was and the eight bytes at it may be read as
      before, the return goes on behind the call and takes further bytes off the stack. -/
  returns : ∀ (m₂ : Machine Memory) (ret : Instruction) (count : UInt16), ret.operation = .ret count →
    m₂.bus.table.WellFormed → m₂.cpu.gpr .rsp = m₁.cpu.gpr .rsp →
    (∀ x, (m₁.cpu.gpr .rsp).toNat ≤ x → x < (m₁.cpu.gpr .rsp).toNat + 8 → m₂.bus.byte? x = m₁.bus.byte? x) →
    outcome (Exec.retire ret ret.binding) m₂ =
      (.ok .proceed, ⟨(m₂.cpu.setGpr .rsp (m.cpu.gpr .rsp + count.toUInt64)).setRip call.next, m₂.bus⟩)

namespace Exec

variable {m : Machine Memory}

/-- A call goes on at its target, when the address behind it has been pushed. -/
theorem outcome_retire_call {i : Instruction} {target : UInt64} (h : i.CallsTo m target) :
    outcome (retire i i.binding) m =
      match outcome (pushValue .w64 i.next) m with
      | (.ok _, m') => (.ok .proceed, ⟨m'.cpu.setRip target, m'.bus⟩)
      | (.error f, m') => (.error f, m') := by
  have hexecute : outcome (i.execute i.binding) m = outcome (callTo i.next target) m := by
    obtain hcall | ⟨src, hcall, hread⟩ := h
    · simp only [Instruction.execute, hcall]
    · have hoperand : i.binding.get 0 = src.bind i.next := Instruction.get_binding (by rw [hcall]; rfl)
      simp only [Instruction.execute, hcall, hoperand, outcome_bind, Location.outcome_read_of_ok hread]
  rw [outcome_retire, hexecute, callTo, outcome_bind]
  rcases outcome (pushValue .w64 i.next) m with ⟨_ | _, _⟩ <;> rfl

/-- A return goes on at the address on the stack. -/
theorem outcome_retire_ret {i : Instruction} {count : UInt16} {target : UInt64} (hi : i.operation = .ret count)
    (hm : m.bus.table.WellFormed)
    (htop : m.bus.HoldsBytes (m.cpu.gpr .rsp).toNat 8 (LittleEndian.bytes 8 target.toNat)) :
    outcome (retire i i.binding) m =
      (.ok .proceed, ⟨(m.cpu.setGpr .rsp (m.cpu.gpr .rsp + 8 + count.toUInt64)).setRip target, m.bus⟩) := by
  have htarget : Width.w64.truncate target = target := by
    rw [← UInt64.toNat_inj, Width.toNat_truncate]
    exact Nat.mod_eq_of_lt target.toNat_lt
  have hpop : outcome (popValue .w64) m = (.ok target, ⟨m.cpu.setGpr .rsp (m.cpu.gpr .rsp + 8), m.bus⟩) := by
    have hpop := outcome_popValue_of_holdsBytes (w := .w64) hm htop
    rwa [htarget] at hpop
  have hexecute : (i.execute i.binding : Exec Memory Outcome) = returnFrom count := by
    simp only [Instruction.execute, hi]
  rw [outcome_retire, hexecute]
  simp only [returnFrom, setGpr, outcome_bind, outcome_cpu, outcome_modifyCpu, hpop, outcome_pure,
    Cpu.gpr_setGpr_self, Cpu.setGpr_setGpr_self, Outcome.exit, Outcome.rip]

/-- **Calls.** A call may be returned from as soon as its eight bytes may be written and read. -/
theorem exists_callReturn {call : Instruction} {target : UInt64} (hcall : call.CallsTo m target)
    (hm : m.bus.table.WellFormed) (hwrite : m.StackPermits .write 8) (hread : m.StackPermits .read 8) :
    ∃ m₁, m.CallReturn call target m₁ := by
  obtain ⟨b, hpush, hpushed⟩ := outcome_pushValue (w := .w64) hm hwrite call.next
  obtain ⟨m₁, hm₁⟩ : ∃ m₁ : Machine Memory, m₁ = ⟨(m.cpu.setGpr .rsp (m.cpu.gpr .rsp - 8)).setRip target, b⟩ :=
    ⟨_, rfl⟩
  have hslot : m.Pushed m₁ (LittleEndian.bytes 8 call.next.toNat) := hm₁ ▸ hpushed target
  refine ⟨m₁, ?_, hm₁ ▸ rfl, hslot, ?_⟩
  · rw [outcome_retire_call hcall, hpush, hm₁]
    rfl
  · intro m₂ ret count hret hm₂ hrsp hsame
    have htop := (hslot.holdsBytes hread).congr hsame
    have hback : m₂.cpu.gpr .rsp + 8 = m.cpu.gpr .rsp := by
      rw [hrsp, hslot.rsp]
      exact UInt64.sub_add_cancel _ _
    rw [← hrsp] at htop
    rw [outcome_retire_ret hret hm₂ htop, hback]

end Exec

/-! ### The stack pointer as an operand -/

/-- What popping a number to the address `x` does, in an instruction that is followed by one at `next`. -/
structure Machine.PopsTo (m : Machine Memory) (next x : UInt64) (w : Width) (v : UInt64)
    (result : Except Fault StepExit × Machine Memory) : Prop where
  written : m.bus.AllPermit .write x.toNat w.bytes → ∃ b : Memory,
    result = (.ok .proceed, ⟨(m.cpu.setGpr .rsp (m.cpu.gpr .rsp + UInt64.ofNat w.bytes)).setRip next, b⟩) ∧
      m.bus.Overlaid b x.toNat (LittleEndian.bytes w.bytes v.toNat)
  /-- Where the number may not be written, the stack pointer is moved back. -/
  refused : ¬ m.bus.AllPermit .write x.toNat w.bytes → ∃ f, result = (.error f, m)

namespace Exec

variable {m : Machine Memory} {i : Instruction} {w : Width}

/-- **Pushing the stack pointer.** What is put on the stack is the stack pointer as it was before. -/
theorem exists_push_rsp (hi : i.operation = .push (.reg (.low .rsp w)) w) (hm : m.bus.table.WellFormed)
    (hroom : m.StackPermits .write w.bytes) :
    ∃ m', outcome (retire i i.binding) m = (.ok .proceed, m') ∧
      m.Pushed m' (LittleEndian.bytes w.bytes (m.cpu.gpr .rsp).toNat) := by
  have hbytes : LittleEndian.bytes w.bytes (w.truncate (m.cpu.gpr .rsp)).toNat =
      LittleEndian.bytes w.bytes (m.cpu.gpr .rsp).toNat := by
    rw [Width.toNat_truncate, Width.toNat, Width.modulus_eq, LittleEndian.bytes_mod]
  rw [← hbytes]
  exact outcome_retire_push ⟨i, _, w, w.truncate (m.cpu.gpr .rsp), hi⟩ hm hroom rfl

/-- **Popping to memory.** The address is that of registers in which the stack pointer has moved. -/
theorem popsTo_of_holdsBytes {a : Address} (hi : i.operation = .pop (.mem a) w) (hm : m.bus.table.WellFormed)
    {v : UInt64} (htop : m.bus.HoldsBytes (m.cpu.gpr .rsp).toNat w.bytes (LittleEndian.bytes w.bytes v.toNat)) :
    m.PopsTo i.next ((a.bind i.next).effective (m.cpu.setGpr .rsp (m.cpu.gpr .rsp + UInt64.ofNat w.bytes))) w v
      (outcome (retire i i.binding) m) := by
  have hwork : (i.execute i.binding : Exec Memory Outcome) = do
      pop (.mem (a.bind i.next)) w
      return .next i.next := by
    have hoperand : i.binding.get 0 = .mem (a.bind i.next) :=
      Instruction.get_binding (k := 0) (o := .mem a) (by rw [hi]; rfl)
    simp only [Instruction.execute, hi, hoperand]
  -- the machine behind the read, from which the address is computed
  obtain ⟨s, hs⟩ : ∃ s, s = m.cpu.setGpr .rsp (m.cpu.gpr .rsp + UInt64.ofNat w.bytes) := ⟨_, rfl⟩
  have hback : s.setGpr .rsp (m.cpu.gpr .rsp) = m.cpu := by
    rw [hs, Cpu.setGpr_setGpr_gpr]
  have hbytes : byteList (packed (LittleEndian.bytes w.bytes (w.truncate v).toNat)) =
      LittleEndian.bytes w.bytes v.toNat := by
    rw [byteList_packed, Width.toNat_truncate, Width.toNat, Width.modulus_eq, LittleEndian.bytes_mod]
  -- the number on the stack is read first
  have hpop := outcome_popValue_of_holdsBytes hm htop
  rw [← hs] at hpop ⊢
  have hwrite : ∀ b r, outcome (Memory.store true ((a.bind i.next).effective s)
      (packed (LittleEndian.bytes w.bytes (w.truncate v).toNat))) m.bus = (r, b) →
      outcome (Location.write (.mem (a.bind i.next)) w (w.truncate v)) ⟨s, m.bus⟩ =
        (r.mapError Fault.memory, ⟨s, b⟩) := by
    intro b r hstore
    have hbus : outcome (Bus.writeWord w ((a.bind i.next).effective s) (w.truncate v) : BusM Memory Unit) m.bus =
        (r, b) := hstore
    simp only [Location.write, outcome_bind, outcome_cpu, outcome_access, hbus]
    cases r <;> rfl
  rw [outcome_retire_next hwork]
  simp only [pop, outcome_bind, outcome_cpu, outcome_tryCatch, hpop]
  -- if the write fails the stack pointer goes back
  obtain ⟨b, hstore, -, hpermit, hlaid⟩ | ⟨e, hstore, hrefused⟩ :=
    Memory.store_cases hm ((a.bind i.next).effective s) _ hbytes
  · rw [LittleEndian.length_bytes] at hpermit
    refine ⟨fun _ => ⟨b, ?_, hlaid⟩, fun hno => absurd hpermit hno⟩
    rw [hwrite _ _ hstore, ← hs]
    rfl
  · rw [LittleEndian.length_bytes] at hrefused
    refine ⟨fun hpermit => absurd hpermit hrefused, fun _ => ⟨.memory e, ?_⟩⟩
    rw [hwrite _ _ hstore]
    simp only [Except.mapError, setGpr, outcome_modifyCpu, outcome_throw, hback]

end Exec

/-- An address that counts from the stack pointer moves with it. -/
theorem Address.effective_bind_rsp {a : Address} (hbase : a.base = .register .rsp) (hindex : a.index ≠ some .rsp)
    (hwide : a.narrow = false) (next : UInt64) (s : Cpu) (x : UInt64) :
    (a.bind next).effective (s.setGpr .rsp (s.gpr .rsp + x)) = (a.bind next).effective s + x := by
  have hindexWord : a.indexWord (s.setGpr .rsp (s.gpr .rsp + x)) = a.indexWord s := by
    unfold Address.indexWord
    cases hi : a.index with
    | none => rfl
    | some g =>
      have hne : Gpr.rsp ≠ g := fun heq => hindex (heq ▸ hi)
      simp only [Cpu.gpr_setGpr_of_ne s _ hne]
  have hbaseWord : ∀ t : Cpu, a.baseWord next t = t.gpr .rsp := fun t => by rw [Address.baseWord, hbase]
  have hsegment : (s.setGpr .rsp (s.gpr .rsp + x)).overrideBase (a.bind next).segment =
      s.overrideBase (a.bind next).segment := by
    cases (a.bind next).segment with
    | none => rfl
    | some r => cases r <;> rfl
  rw [BoundAddress.effective_eq_offset_add, BoundAddress.effective_eq_offset_add, hsegment, Address.offset_bind,
    Address.offset_bind]
  simp only [hwide, Bool.false_eq_true, if_false, hindexWord, hbaseWord, Cpu.gpr_setGpr_self]
  ac_rfl

namespace Exec

/-- **Last in, first out.** Whatever numbers are pushed, if the bytes below the stack pointer may be written and read,
    pops of the same widths in reverse order take them off the stack, and nothing else is different but the bytes
    below the stack pointer. A return goes on behind the call whose address it finds. The stack pointer is pushed as
    it was before, and where a popped operand is in memory, its address is that after the stack pointer has moved. -/
theorem last_in_first_out {m : Machine Memory} (hm : m.bus.Reachable) :
    (∀ (pushes : List Push) (pops : List Pop), Push.Yield pushes m → m.StackPermits .write (Push.total pushes) →
      m.StackPermits .read (Push.total pushes) → pops.map (·.width) = (pushes.map (·.width)).reverse →
      ∃ m', Executes (pushes.map (·.instruction) ++ pops.map (·.instruction)) m m' ∧ m.RoundTrip m' pushes pops) ∧
    (∀ (call : Instruction) (target : UInt64), call.CallsTo m target → m.StackPermits .write 8 →
      m.StackPermits .read 8 → ∃ m₁, m.CallReturn call target m₁) ∧
    (∀ (i : Instruction) (w : Width), i.operation = .push (.reg (.low .rsp w)) w → m.StackPermits .write w.bytes →
      ∃ m', outcome (retire i i.binding) m = (.ok .proceed, m') ∧
        m.Pushed m' (LittleEndian.bytes w.bytes (m.cpu.gpr .rsp).toNat)) ∧
    ∀ (i : Instruction) (a : Address) (w : Width) (v : UInt64), i.operation = .pop (.mem a) w →
      m.bus.HoldsBytes (m.cpu.gpr .rsp).toNat w.bytes (LittleEndian.bytes w.bytes v.toNat) →
      ∃ x, m.PopsTo i.next x w v (outcome (retire i i.binding) m) ∧
        x = (a.bind i.next).effective (m.cpu.setGpr .rsp (m.cpu.gpr .rsp + UInt64.ofNat w.bytes)) ∧
        (a.base = .register .rsp → a.index ≠ some .rsp → a.narrow = false →
          x = (a.bind i.next).effective m.cpu + UInt64.ofNat w.bytes) :=
  ⟨fun pushes pops hyield hwrite hread hwidths =>
      exists_executes_roundTrip pushes pops hm.wellFormed hyield hwrite hread hwidths,
    fun _ _ hcall hwrite hread => exists_callReturn hcall hm.wellFormed hwrite hread,
    fun _ _ hi hroom => exists_push_rsp hi hm.wellFormed hroom,
    fun _ a _ _ hi htop => ⟨_, popsTo_of_holdsBytes hi hm.wellFormed htop, rfl, fun hbase hindex hwide =>
      a.effective_bind_rsp hbase hindex hwide _ _ _⟩⟩

/-- Sixteen bytes of stack: eight and two bytes come back in other registers; a call is returned from with four bytes
    more; the stack pointer is pushed as it was, and the word on top popped to the address eight bytes above. -/
theorem last_in_first_out_sixteen :
    let bus : Memory := (Memory.empty ⟨0x10000, 0x20000⟩).afterCalls
      [.map ⟨0x3000, 0x3010, .readWrite, 0, "stack"⟩ (packed [])]
    let m : Machine Memory := ⟨(Cpu.initial.setGpr .rsp 0x3010).setGpr .rax 0x1122334455667788, bus⟩
    let low : Machine Memory := ⟨m.cpu.setGpr .rsp 0x3000, bus⟩
    let pushes : List Push :=
      [⟨⟨0x1000, .ofBytes [0x50], .push (.reg (.low .rax .w64)) .w64⟩, _, _, 0x1122334455667788, rfl⟩,
        ⟨⟨0x1001, .ofBytes [0x66, 0x50], .push (.reg (.low .rax .w16)) .w16⟩, _, _, 0x7788, rfl⟩]
    let pops : List Pop :=
      [⟨⟨0x1003, .ofBytes [0x66, 0x5b], .pop (.reg (.low .rbx .w16)) .w16⟩, _, _, rfl, by decide⟩,
        ⟨⟨0x1005, .ofBytes [0x59], .pop (.reg (.low .rcx .w64)) .w64⟩, _, _, rfl, by decide⟩]
    let call : Instruction := ⟨0x1000, .ofBytes [0xe8, 0xfb, 0, 0, 0], .call 0x1100⟩
    let ret : Instruction := ⟨0x1100, .ofBytes [0xc2, 0x04, 0], .ret 4⟩
    let pushRsp : Instruction := ⟨0x1000, .ofBytes [0x54], .push (.reg (.low .rsp .w64)) .w64⟩
    let popUp : Instruction := ⟨0x1000, .ofBytes [0x8f, 0x04, 0x24],
      .pop (.mem ⟨.register .rsp, none, .one, 0, none, false⟩) .w64⟩
    m.bus.Reachable ∧
    (∃ m', Executes (pushes.map (·.instruction) ++ pops.map (·.instruction)) m m' ∧ m'.cpu.gpr .rsp = 0x3010 ∧
      ∀ x ∈ pops.zip pushes.reverse,
        m'.cpu.readReg (.low x.1.target x.1.width) = x.1.width.truncate x.2.value) ∧
    (∃ m₁, outcome (retire call call.binding) m = (.ok .proceed, m₁) ∧ m₁.cpu.rip = 0x1100 ∧
      outcome (retire ret ret.binding) m₁ =
        (.ok .proceed, ⟨(m₁.cpu.setGpr .rsp 0x3014).setRip 0x1005, m₁.bus⟩)) ∧
    (∃ m', outcome (retire pushRsp pushRsp.binding) m = (.ok .proceed, m') ∧
      m.Pushed m' [0x10, 0x30, 0, 0, 0, 0, 0, 0]) ∧
    low.PopsTo popUp.next 0x3008 .w64 0 (outcome (retire popUp popUp.binding) low) := by
  intro bus m low pushes pops call ret pushRsp popUp
  have hm : m.bus.Reachable := ⟨_, _, rfl⟩
  -- all sixteen bytes are zero and may be read and written
  have hcells : ∀ k < 16, bus.view? (0x3000 + k) = some (0, .readWrite) := by decide +kernel
  have hpermits : ∀ (access : Access) (n : Nat), Permissions.readWrite.allows access = true → n ≤ 16 →
      m.StackPermits access n := by
    intro access n haccess hn
    have hrsp : (m.cpu.gpr .rsp).toNat = 0x3010 := by decide +kernel
    refine ⟨by omega, fun x hax hx => ?_⟩
    obtain ⟨k, rfl⟩ := Nat.exists_eq_add_of_le (show 0x3000 ≤ x by omega)
    exact ⟨_, hcells k (by omega), haccess⟩
  have hyield : Push.Yield pushes m := ⟨by decide +kernel, by decide +kernel, trivial⟩
  -- from the low end a pop takes eight of them
  have htop : low.bus.HoldsBytes 0x3000 8 (List.replicate 8 0) := by
    unfold Memory.HoldsBytes
    decide +kernel
  obtain ⟨htrip, hcall, hpush, -⟩ := last_in_first_out hm
  obtain ⟨m', hexecutes, hback⟩ := htrip pushes pops hyield (hpermits .write 10 rfl (by decide))
    (hpermits .read 10 rfl (by decide)) rfl
  obtain ⟨m₁, hreturn⟩ := hcall call 0x1100 (Or.inl rfl) (hpermits .write 8 rfl (by decide))
    (hpermits .read 8 rfl (by decide))
  obtain ⟨-, -, -, hpop⟩ := last_in_first_out (m := low) hm
  obtain ⟨x, hpops, -, hx⟩ := hpop popUp ⟨.register .rsp, none, .one, 0, none, false⟩ .w64 0 rfl htop
  -- the address is computed with the stack pointer behind the pop
  obtain rfl : x = 0x3008 := (hx rfl nofun rfl).trans (by decide +kernel)
  have hold : LittleEndian.bytes Width.w64.bytes (m.cpu.gpr .rsp).toNat = [0x10, 0x30, 0, 0, 0, 0, 0, 0] := by
    decide +kernel
  refine ⟨hm, ⟨m', hexecutes, hback.rsp, hback.values (by decide)⟩, ⟨m₁, hreturn.proceeds, hreturn.called, ?_⟩,
    hold ▸ hpush pushRsp .w64 rfl (hpermits .write 8 rfl (by decide)), hpops⟩
  exact hreturn.returns m₁ ret 4 rfl hreturn.pushed.wellFormed rfl fun _ _ _ => rfl

end Exec

end Amd64
