import LockOrder.Outsiders.Act
import LockOrder.Worker.Run

set_option autoImplicit false

namespace LockOrder

inductive Script.Step where
  | read (key : UInt64)
  -- Goes on if the read fails.
  | tryRead (key : UInt64)
  | write (key value : UInt64)
  -- Writes the sum of the register and this number.
  | writeSum (key addend : UInt64)
  | fail (fault : Fault)
  | transact (seat : Nat) (attempts : List (List Script.Step))
  | act (act : Act)

namespace Script

abbrev Program := Body Act Reply

abbrev Piece := UInt64 → Program

def unlessFault {β : Type} (go : β → Program) : Except Fault β → Program
  | .ok value => go value
  | .error fault => .done (.error fault)

def pick (pieces : List Piece) (past : Nat) : Program :=
  match pieces[past]? with
  | some piece => piece 0
  | none =>
      match pieces.getLast? with
      | some piece => piece 0
      | none => .done (.ok 0)

mutual

def Step.before : Step → Piece → Piece
  | .read key, rest, _ => .read key (unlessFault rest)
  | .tryRead key, rest, register =>
      .read key fun
        | .ok value => rest value
        | .error _ => rest register
  | .write key value, rest, register => .write key value (unlessFault fun _ => rest register)
  | .writeSum key addend, rest, register =>
      .write key (register + addend) (unlessFault fun _ => rest register)
  | .fail fault, _, _ => .done (.error fault)
  | .transact seat attempts, rest, register =>
      let pieces := piecesOf attempts
      .transact seat (fun past => pick pieces past.length) fun _ => rest register
  | .act act, rest, register => .act act fun _ => rest register

def pieceOf : List Step → Piece
  | [], register => .done (.ok register)
  | step :: rest, register => step.before (pieceOf rest) register

def piecesOf : List (List Step) → List Piece
  | [] => []
  | steps :: rest => pieceOf steps :: piecesOf rest

end

def transaction (attempts : List (List Step)) : Transaction Act Reply :=
  let pieces := piecesOf attempts
  fun past => pick pieces past.length

def adding (addends : List (UInt64 × UInt64)) : List Step :=
  addends.flatMap fun (key, addend) => [.read key, .writeSum key addend]

end Script

def Arena.ofTable (table : Table) (workers : List Worker) (draws : Draws) : Arena Outsiders :=
  { store := { records := table.records, draws }
    outside := .forRecords table.size
    seats := (workers.map some).toArray }

namespace Script

def repeated (table : Table) (seat : Nat) (attempts : List (List Step)) :
    Nat → Arena Outsiders → Arena Outsiders
  | 0, arena => arena
  | times + 1, arena =>
      repeated table seat attempts times
        (arena.transact table (Act.perform table) seat (transaction attempts)).2

structure Load where
  times : Nat
  addends : List (UInt64 × UInt64)

def runLoads (table : Table) : List Load → Nat → Arena Outsiders → Arena Outsiders
  | [], _, arena => arena
  | load :: rest, seat, arena =>
      runLoads table rest (seat + 1)
        (repeated table seat [adding load.addends] load.times arena)

end Script

end LockOrder
