import Timebase.Main
import Timebase.Bench.Session
import Timebase.Json.Parse
import Timebase.Proofs.Queue
import Timebase.Proofs.Operations
import Timebase.Proofs.Program
import Timebase.Proofs.Path
import Timebase.Proofs.Pending
import Timebase.Proofs.Recording
import Timebase.Proofs.Reentry
import Timebase.Proofs.Conservation
import Timebase.Proofs.DispatchOrder
import Timebase.Proofs.Slicing
import Timebase.Proofs.Punctuality
import Timebase.Proofs.QuickWay
import Timebase.Proofs.BreakingOff
import Timebase.Proofs.Clock
import Timebase.Proofs.Wanted
import Timebase.Proofs.Device.FrameTimer
import Timebase.Proofs.Device.Uart
import Timebase.Proofs.Device.AudioSampler
import Timebase.Proofs.Machine.Peripherals
import Timebase.Proofs.Machine.Running
import Timebase.Proofs.Emulator
import Timebase.Proofs.Machine.Report
import Timebase.Proofs.Ownership
import Timebase.Proofs.Moving
import Timebase.Proofs.Driving
import Timebase.Proofs.Drift
import Timebase.Proofs.Device.DemoCpu
import Timebase.Proofs.Machine.RunTime
import Timebase.Proofs.Machine.Loss
import Timebase.Proofs.LeavingTime
import Timebase.Proofs.Turns
import Timebase.Proofs.Pacing
import Timebase.Proofs.Teardown
import Timebase.Proofs.Bystander
import Timebase.Proofs.Json.ReadBack
import Timebase.Proofs.Limits
import Timebase.Proofs.Saving
import Timebase.Proofs.Rejection
import Timebase.Proofs.Residents
import Timebase.Proofs.Trails
import Timebase.Proofs.Deeds
import Timebase.Proofs.Blindness
import Timebase.Proofs.Device.Line
import Timebase.Proofs.Device.Conveyance
import Timebase.Proofs.Device.LineReset
import Timebase.Proofs.Device.LineTiming
import Timebase.Proofs.Device.Bursts
import Timebase.Proofs.Device.Transmission
import Timebase.Proofs.Device.InputPort
import Timebase.Proofs.Bench
import Timebase.Proofs.Machine.Residents
import Timebase.Proofs.Machine.Input
import Timebase.Proofs.Conversion
import Timebase.Proofs.Machine.Lockstep
import Timebase.Proofs.Device.Waking
import Timebase.Proofs.Workload
import Timebase.Proofs.Device.CpuTime
import Timebase.Proofs.Machine.Answering
import Timebase.Proofs.Machine.Endurance
import Timebase.Proofs.Machine.Agenda
import Timebase.Proofs.TickLookup
import Timebase.Proofs.Rates
import Timebase.Proofs.TickInstants
import Timebase.Proofs.Machine.Construction
import Timebase.Proofs.Time.Operators
import Timebase.Proofs.Device.Rearming
import Timebase.Proofs.Bench.Wishes
import Timebase.Proofs.Bench.Reached
import Timebase.Proofs.Bench.Rearming
import Timebase.Proofs.Time.Units
import Timebase.Proofs.TickCounts
import Timebase.Proofs.Device.Sampling
import Timebase.Proofs.Device.FrameGrid
import Timebase.Proofs.Bench.Periodic
import Timebase.Proofs.Machine.Periodic
import Timebase.Proofs.Device.Instructions
import Timebase.Proofs.RegistrationOrder
import Timebase.Proofs.LeavingOut
import Timebase.Proofs.Property
import Timebase.Proofs.Text.Octets
import Timebase.Proofs.Machine.FinishingOrder
