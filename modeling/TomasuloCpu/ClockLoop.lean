import TomasuloCpu.Clock
import TomasuloCpu.Main

set_option autoImplicit false

/-!
# The loop of `main` on the clock

The clock as `clk.c` and `reg.c` have it, with its lists of registers, callbacks
and combinational registers in any order, against the synchronous step that all
other results are about.
-/
namespace TomasuloCpu
open Clocked

def Clk.machine (c : Clk) : Machine where
  cpu := c.pending
  read := c.latched
  clk := c.clk

variable [WideShift]

/-- `while (!hcf) clk_tick(clk)` -/
def clkLoop : List Order → Clk → Except Fault Clk
  | [], c => .ok c
  | o :: os, c => if c.pending.plain.hcf then .ok c else do clkLoop os (← clkTick o c)

variable {c : Clk}

theorem Clk.Sound.clkLoop_machine (hs : c.Sound) (os : List Order) :
    (clkLoop os c).map Clk.machine = cpuLoop (os.map Order.toSchedule) c.machine := by
  induction os generalizing c with
  | nil => rfl
  | cons o os ih =>
    rw [clkLoop, List.map_cons, cpuLoop]
    change Except.map Clk.machine (if c.pending.plain.hcf then _ else _) =
      if c.pending.plain.hcf then _ else _
    split
    · rfl
    · -- the loops of the clock over its registers come to one step
      rw [hs.pristine.clkTick_eq o]
      change _ = cpuTick o.toSchedule c.pending >>= _
      cases ht : cpuTick o.toSchedule c.pending with
      | error f => rfl
      | ok p =>
        refine ih (hs.step (o := o) ?_).1
        rw [hs.pristine.clkTick_eq o, ht]
        rfl

section
variable (image : MemData) (garbage : ℤ → ℤ → ℤ) (hist : ℤ)

/-- The clock refines the synchronous model: with all its lists in any order the loop of
    `main` fails where the loop over steps does, in the same way, or leaves the same
    state, the same registers to be read and the same count of cycles. -/
theorem clkLoop_refines (os : List Order) :
    (clkLoop os (clkCreate image garbage hist)).map Clk.machine =
      cpuLoop (os.map Order.toSchedule) (machineCreate image garbage hist) :=
  (sound_clkCreate image garbage hist).clkLoop_machine os

end

end TomasuloCpu
