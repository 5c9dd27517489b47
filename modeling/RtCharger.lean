import RtCharger.Lib.StepSystem
import RtCharger.Lib.OneHot
import RtCharger.Lib.AutoReset
import RtCharger.Lib.SharedHeap
import RtCharger.Kernel.Event
import RtCharger.Os.CompactedEventSet
import RtCharger.Os.AllocatorInvariant
import RtCharger.Kernel.BitView
import RtCharger.Os.EventWaits
import RtCharger.Os.EventIsolation
import RtCharger.Os.FreshEvent
import RtCharger.Os.AllocatorRace
import RtCharger.Kernel.Mutex
import RtCharger.Lib.Counting
import RtCharger.Os.Queue
import RtCharger.Os.QueueFifo
import RtCharger.Os.QueueWakeup
import RtCharger.Os.Post
import RtCharger.Os.PostDelivery
import RtCharger.Os.Reply
import RtCharger.Os.ReplyInvariant
import RtCharger.Os.ReplyLifetime
import RtCharger.Os.ReplyLeak
import RtCharger.Os.Observable
import RtCharger.Lib.Effect
import RtCharger.Os.Signals
import RtCharger.Net.CplxAt
import RtCharger.Net.UrcRegistration
import RtCharger.Net.AtUrcBuilder
import RtCharger.Utilities.LimitedSlots
import RtCharger.Devices.Http
import RtCharger.Devices.HttpResponse
import RtCharger.Devices.Mqtt
import RtCharger.Devices.MqttMessage
import RtCharger.Lib.Triple
import RtCharger.Net.At
import RtCharger.Devices.HttpSend
import RtCharger.Devices.MqttSetup
import RtCharger.Net.AtText
import RtCharger.Devices.MqttTexts
import RtCharger.Devices.HttpTexts
import RtCharger.Devices.HttpOwnership
import RtCharger.Devices.HttpLifetime
import RtCharger.Devices.HttpSessions
import RtCharger.Devices.HttpBrackets
import RtCharger.Devices.HttpEvents
import RtCharger.Devices.HttpHandler
import RtCharger.Utilities.Split
import RtCharger.Utilities.WeakSlots
import RtCharger.Net.UrcArguments
import RtCharger.Net.UrcShortLines
import RtCharger.Net.UrcFields
import RtCharger.Net.UrcLastField
import RtCharger.Net.UrcOrder
import RtCharger.Utilities.Integral
import RtCharger.Net.UrcNumbers
import RtCharger.Devices.LoadDetector
import RtCharger.Devices.Rc522
import RtCharger.Hal.Uart
import RtCharger.Os.ObservableNesting
import RtCharger.Os.Observables
import RtCharger.Os.ObservableBinding
import RtCharger.Hal.Port
import RtCharger.Os.Timeout
import RtCharger.Termios.Cmd
import RtCharger.Termios.PortArgument
import RtCharger.Os.Timer
import RtCharger.Devices.LoadScan
import RtCharger.Lib.RegisterBus
import RtCharger.Devices.PcdExchange
import RtCharger.Devices.PcdFifo
import RtCharger.Devices.PcdAntiColl
import RtCharger.Devices.PcdPoll
import RtCharger.Lib.OrderedDict
import RtCharger.Scripts.Annotations
import RtCharger.Scripts.IncludeParam
import RtCharger.Scripts.Preset
import RtCharger.Scripts.RunAnno
import RtCharger.Scripts.AnnotationWalk
import RtCharger.Lib.Framing
import RtCharger.Kernel.Semaphore
import RtCharger.Net.AtReadline
import RtCharger.Net.AtResponse
import RtCharger.Net.AtExec
import RtCharger.Net.AtAnswers
import RtCharger.Lib.WrappingClock
import RtCharger.Kernel.Timers
import RtCharger.Lib.RingQueue
import RtCharger.Hal.SerialFifo
import RtCharger.Net.AtGetchar
import RtCharger.Os.Task
import RtCharger.Devices.Wtn6
import RtCharger.Devices.Relay
import RtCharger.Lib.PriorityLists
import RtCharger.Kernel.Scheduler
import RtCharger.Lib.ByteMemory
import RtCharger.Kernel.Mem
import RtCharger.Kernel.MemInvariant
import RtCharger.Kernel.MemRuns
import RtCharger.Lib.SerialBits
import RtCharger.Devices.Ws2812
import RtCharger.Lib.LineBuffer
import RtCharger.Termios.Msh
import RtCharger.Termios.MshLines
import RtCharger.Termios.Shell
import RtCharger.Termios.ShellSession
import RtCharger.Termios.ShellScreen
import RtCharger.Utilities.Scanf
import RtCharger.Devices.Basic
