import Chip8VM.Clock
import Chip8VM.Console
import Chip8VM.Handles
import Chip8VM.Machine.Dump
import Chip8VM.Rom.Disk
import Chip8VM.Ticker
import Chip8VM.Zip.Archive
import Chip8VM.Proofs.Bounds
import Chip8VM.Proofs.Calls
import Chip8VM.Proofs.FirstFault
import Chip8VM.Proofs.Independence
import Chip8VM.Proofs.Mirror
import Chip8VM.Proofs.Noninterference
import Chip8VM.Proofs.Printout
import Chip8VM.Proofs.RandomBytes
import Chip8VM.Proofs.RegisterBlocks
import Chip8VM.Proofs.Reload
import Chip8VM.Proofs.Shutdown
import Chip8VM.Proofs.WholeTicks
import Chip8VM.Proofs.Sprites
import Chip8VM.Proofs.Glyphs
import Chip8VM.Proofs.Countdown
import Chip8VM.Proofs.SharedTimers
import Chip8VM.Proofs.Drawing
import Chip8VM.Proofs.Redrawing
import Chip8VM.Proofs.FailingWords
import Chip8VM.Proofs.Arithmetic
import Chip8VM.Proofs.Destinations
import Chip8VM.Proofs.Polling
import Chip8VM.Proofs.StrictAccess
import Chip8VM.Proofs.Encoding
import Chip8VM.Proofs.Edits
import Chip8VM.Proofs.DeclaredSizes
import Chip8VM.Proofs.SharedKeys
import Chip8VM.Proofs.TableRows
import Chip8VM.Proofs.Toggling
