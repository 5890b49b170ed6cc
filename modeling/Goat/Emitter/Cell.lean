import Goat.Emitter.Basic
import Goat.Program.Operator

/-!
# Code for single cells

Arithmetic, comparison, input and output of byte cells. Every operation leaves
its operands as they were unless it says otherwise, and every temporary cell it
uses is zero again, and released, when it ends.
-/

namespace Goat

namespace Cell

/-- A fresh cell, which is zero. An empty name marks a temporary. -/
def new (name : Text) : Emit Cell := do
  let region ← Emit.allocate 1
  Emit.trace (Text.join ["alloc Int ", Text.quote name, " at ", region.toText])
  return ⟨name, region.start, true⟩

/-- A fresh temporary. -/
def temporary : Emit Cell := new []

/-- Changes the cell by `n`. -/
def add (c : Cell) (n : Int) : Emit Unit := Emit.build (·.add c.address n)

/-- Sets the cell to zero. -/
def reset (c : Cell) : Emit Unit := Emit.build (·.clear c.address)

/-- Repeats `body` while the cell is not zero. -/
def loop (c : Cell) (body : Emit Unit) : Emit Unit := do
  Emit.build (·.openLoop c.address)
  body
  Emit.build (·.closeLoop c.address)

/-- Repeats `body` while the cell is not zero. If `body` fails, the loop stays open. -/
def tryLoop (c : Cell) (body : TryEmit Unit) : TryEmit Unit := do
  Emit.build (·.openLoop c.address)
  body
  Emit.build (·.closeLoop c.address)

/-- Sets the cell to zero and gives it back unless it is part of a list. -/
def destroy (c : Cell) : Emit Unit := do
  c.reset
  if c.owned then
    Emit.release c.region
    Emit.trace (Text.join ["free Int ", Text.quote c.name, " at ", c.region.toText])

/-- Sets the cell to `n` modulo 256. -/
def setConst (c : Cell) (n : Int) : Emit Unit := do
  c.reset
  c.add (n % 256)

/-- Adds `source` to the cell, leaving `source` zero. The cells must differ. -/
def drain (c source : Cell) : Emit Unit :=
  source.loop do
    source.add (-1)
    c.add 1

/-- Moves `source` into the cell, leaving `source` zero. -/
def take (c source : Cell) : Emit Unit := do
  if c.address ≠ source.address then
    c.reset
    c.drain source

/-- A new temporary with the same value. -/
def clone (c : Cell) : Emit Cell := do
  let back ← temporary
  let copy ← temporary
  c.loop do
    c.add (-1)
    back.add 1
    copy.add 1
  c.drain back
  back.destroy
  return copy

/-- Runs `body` on `y`, or on a copy of it if `y` is the cell itself. -/
def withDistinct (c y : Cell) (body : Cell → Emit Unit) : Emit Unit := do
  if c.address = y.address then
    let copy ← y.clone
    if c.address = copy.address then
      let other ← copy.clone
      body other
      other.destroy
    else
      body copy
    copy.destroy
  else
    body y

/-- Adds `sign` times `y`. -/
def accumulate (c y : Cell) (sign : Int) : Emit Unit :=
  c.withDistinct y fun y => do
    let back ← temporary
    y.loop do
      y.add (-1)
      c.add sign
      back.add 1
    y.drain back
    back.destroy

/-- Adds `y` modulo 256. -/
def plus (c y : Cell) : Emit Unit := c.accumulate y 1

/-- Subtracts `y` modulo 256. -/
def minus (c y : Cell) : Emit Unit := c.accumulate y (-1)

/-- Copies `source` into the cell. -/
def set (c source : Cell) : Emit Unit := do
  if c.address ≠ source.address then
    c.reset
    c.plus source

/-- Multiplies by `y` modulo 256. -/
def times (c y : Cell) : Emit Unit :=
  c.withDistinct y fun y => do
    let count ← temporary
    let back ← temporary
    count.drain c
    count.loop do
      count.add (-1)
      y.loop do
        y.add (-1)
        c.add 1
        back.add 1
      y.drain back
    back.destroy
    count.destroy

/-- Copies `y` onto `countdown`, using `t`. -/
def reload (y countdown t : Cell) : Emit Unit := do
  y.loop do
    y.add (-1)
    countdown.add 1
    t.add 1
  y.drain t

/-- Divides by `y`, rounding down; dividing by zero yields zero. Every unit of
    the dividend lowers a countdown that starts at `y`; each time it reaches zero
    the quotient grows by one and the countdown is reloaded. -/
def dividedBy (c y : Cell) : Emit Unit :=
  c.withDistinct y fun y => do
    let rest ← temporary
    let countdown ← temporary
    let t ← temporary
    let flag ← temporary
    rest.drain c
    reload y countdown t
    rest.loop do
      rest.add (-1)
      countdown.add (-1)
      flag.add 1
      t.drain countdown
      t.loop do
        t.add (-1)
        countdown.add 1
        flag.reset
      flag.loop do
        flag.add (-1)
        c.add 1
        reload y countdown t
    flag.destroy
    t.destroy
    countdown.destroy
    rest.destroy

/-- Raises to the power of `y` modulo 256; anything to the power zero is 1. -/
def power (c y : Cell) : Emit Unit := do
  let exponent ← y.clone
  let base ← temporary
  base.drain c
  c.add 1
  exponent.loop do
    exponent.add (-1)
    c.times base
  base.destroy
  exponent.destroy

/-- Subtracts `y` through a copy, so `y` may be the cell itself. -/
def difference (c y : Cell) : Emit Unit := do
  let copy ← y.clone
  copy.loop do
    copy.add (-1)
    c.add (-1)
  copy.destroy

/-- Sets the cell to 1 if it equals `y` and to 0 otherwise. -/
def equals (c y : Cell) : Emit Unit := do
  c.difference y
  let flag ← temporary
  flag.add 1
  c.loop do
    c.reset
    flag.add (-1)
  c.take flag
  flag.destroy

/-- Sets the cell to 1 if it differs from `y` and to 0 otherwise. -/
def differs (c y : Cell) : Emit Unit := do
  c.difference y
  let flag ← temporary
  c.loop do
    c.reset
    flag.add 1
  c.take flag
  flag.destroy

/-- Sets the cell to 1 if `a < b` and to 0 otherwise. Copies of `a` and `b` are
    lowered in step, that of `b` only while it is not zero, so what is left of it
    is not zero exactly if `a < b`. -/
def lessThan (c a b : Cell) : Emit Unit := do
  let ac ← a.clone
  let bc ← b.clone
  let t ← temporary
  let flag ← temporary
  ac.loop do
    ac.add (-1)
    t.drain bc
    t.loop do
      t.add (-1)
      bc.add 1
      flag.reset
      flag.add 1
    flag.loop do
      flag.add (-1)
      bc.add (-1)
  c.reset
  bc.loop do
    bc.reset
    c.add 1
  flag.destroy
  t.destroy
  bc.destroy
  ac.destroy

/-- Exchanges 0 and 1. -/
def negate (c : Cell) : Emit Unit := do
  let flag ← temporary
  flag.add 1
  c.loop do
    c.add (-1)
    flag.add (-1)
  c.take flag
  flag.destroy

/-- Applies an operator with right operand `y`. -/
def apply (c : Cell) (op : Operator) (y : Cell) : Emit Unit :=
  match op with
  | .add => c.plus y
  | .sub => c.minus y
  | .mul => c.times y
  | .div => c.dividedBy y
  | .pow => c.power y
  | .eq => c.equals y
  | .neq => c.differs y
  | .lt => c.lessThan c y
  | .lte => do
    c.lessThan y c
    c.negate
  | .gt => c.lessThan y c
  | .gte => do
    c.lessThan c y
    c.negate

/-- Writes the cell as a raw byte. -/
def print (c : Cell) : Emit Unit := do
  Emit.moveTo c.address
  Emit.commands [.write]

/-- Reads one byte. The cell is cleared first, so a machine that leaves it alone
    at the end of input reads zero. -/
def input (c : Cell) : Emit Unit := do
  c.reset
  Emit.commands [.read]

/-- The code of the digit zero. -/
def zeroDigit : Int := 48

/-- Writes the cell, which is below ten, as a digit. -/
def printDigit (c : Cell) : Emit Unit := do
  c.add zeroDigit
  Emit.commands [.write]
  c.add (-zeroDigit)

/-- Runs `body` once if the cell equals `k`. -/
def ifEquals (c : Cell) (k : Int) (body : Emit Unit) : Emit Unit := do
  let t ← c.clone
  t.add (-k)
  let flag ← temporary
  flag.add 1
  t.loop do
    t.reset
    flag.add (-1)
  flag.loop do
    flag.add (-1)
    body
  flag.destroy
  t.destroy

/-- Runs `body` once if the cell is not zero. -/
def ifNonzero (c : Cell) (body : Emit Unit) : Emit Unit := do
  let t ← c.clone
  t.loop do
    t.reset
    body
  t.destroy

/-- Writes the cell in decimal without leading zeros. -/
def printDecimal (c : Cell) : Emit Unit := do
  let n ← c.clone
  let ones ← temporary
  let tens ← temporary
  let hundreds ← temporary
  n.loop do
    n.add (-1)
    ones.add 1
    ones.ifEquals 10 do
      ones.reset
      tens.add 1
      tens.ifEquals 10 do
        tens.reset
        hundreds.add 1
  let showTens ← temporary
  hundreds.ifNonzero do
    hundreds.printDigit
    showTens.reset
    showTens.add 1
  tens.ifNonzero do
    showTens.reset
    showTens.add 1
  showTens.loop do
    showTens.add (-1)
    tens.printDigit
  ones.printDigit
  showTens.destroy
  hundreds.destroy
  tens.destroy
  ones.destroy
  n.destroy

/-- Reads a byte as a digit and sets `more` to whether it is one. -/
def readDigit (digit ten more : Cell) : Emit Unit := do
  digit.input
  digit.add (-zeroDigit)
  more.lessThan digit ten

/-- Reads a decimal number modulo 256, up to and including the first byte that
    is no digit. -/
def inputDecimal (c : Cell) : Emit Unit := do
  let digit ← temporary
  let ten ← temporary
  let more ← temporary
  ten.add 10
  c.reset
  readDigit digit ten more
  more.loop do
    c.times ten
    c.plus digit
    readDigit digit ten more
  more.destroy
  ten.destroy
  digit.destroy

end Cell

end Goat
