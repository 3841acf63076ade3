import TomasuloCpu.AluClock
import TomasuloCpu.Arith
import TomasuloCpu.Bounds
import TomasuloCpu.ClockLoop
import TomasuloCpu.Commit
import TomasuloCpu.Drain
import TomasuloCpu.Encode
import TomasuloCpu.FakeCpu
import TomasuloCpu.Fifo
import TomasuloCpu.Flush
import TomasuloCpu.Forwarding
import TomasuloCpu.Immediates
import TomasuloCpu.Jumps
import TomasuloCpu.LoaderImage
import TomasuloCpu.Lockstep
import TomasuloCpu.Overlap
import TomasuloCpu.Path
import TomasuloCpu.Predictor
import TomasuloCpu.Printed
import TomasuloCpu.Programs
import TomasuloCpu.Recovery
import TomasuloCpu.Rename
import TomasuloCpu.SingleWriter
import TomasuloCpu.SizedAccess
import TomasuloCpu.StoreLock
import TomasuloCpu.Stores
import TomasuloCpu.TickOrder
import TomasuloCpu.Training
import TomasuloCpu.Wakeup
import TomasuloCpu.WrongPath
