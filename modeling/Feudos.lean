import Feudos.Library.Run
import Feudos.Vga.Terminal
import Feudos.Vga.Caret
import Feudos.Vga.Trace
import Feudos.Vga.Grid
import Feudos.Vga.Bounds
import Feudos.Vga.Page
import Feudos.Util.Text
import Feudos.Vga.Layout
import Feudos.Vga.Printf
import Feudos.Vga.Format
import Feudos.Library.Positional
import Feudos.Vga.Numerals
import Feudos.Vga.Message
import Feudos.Vga.Newline
import Feudos.Vga.LineLength
import Feudos.Vga.Clear
import Feudos.Vga.Frame
import Feudos.Keyboard.Driver
import Feudos.Keyboard.EditList
import Feudos.Keyboard.Shift
import Feudos.Keyboard.Readline
import Feudos.Keyboard.Wrapping
import Feudos.Keyboard.CopyBounds
import Feudos.Keyboard.LongLine
import Feudos.Keyboard.Editing
import Feudos.Keyboard.Echo
import Feudos.Keyboard.Prompt
import Feudos.Util.Str
import Feudos.Shell.Handlers
import Feudos.Shell.Exec
import Feudos.Shell.Run
import Feudos.Library.Stack
import Feudos.Library.Devices
import Feudos.Library.Uart
import Feudos.Interrupt.Pic
import Feudos.Interrupt.Dispatch
import Feudos.Interrupt.System
import Feudos.Interrupt.Boot
import Feudos.Interrupt.Delivery
import Feudos.Interrupt.Console
import Feudos.Interrupt.Timer
import Feudos.Interrupt.Starting
import Feudos.Interrupt.Handling
import Feudos.Shell.Output
import Feudos.Shell.Session
import Feudos.Shell.Halt
import Feudos.Interrupt.Gate
import Feudos.Interrupt.Entry
import Feudos.Library.RadixTree
import Feudos.Paging.MapPage
import Feudos.Paging.Tables
import Feudos.Paging.Translate
import Feudos.Paging.Safety
import Feudos.Paging.Scratch
import Feudos.Library.Segments
import Feudos.Util.Words
import Feudos.Shell.Parse
import Feudos.Serial.PrintHex
import Feudos.Serial.Port
import Feudos.Boot.Start
import Feudos.Interrupt.Output
