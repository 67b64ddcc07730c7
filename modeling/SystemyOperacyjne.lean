import SystemyOperacyjne.PrintQueueProgress
import SystemyOperacyjne.LifeFrames
import SystemyOperacyjne.SantaRounds
import SystemyOperacyjne.QueueChatMoves
import SystemyOperacyjne.QueueChatOrder
import SystemyOperacyjne.ChatServerRegistration
import SystemyOperacyjne.ChatServerCount
import SystemyOperacyjne.ChatServerSlots
import SystemyOperacyjne.Library.Cellular
import SystemyOperacyjne.LifePlane
import SystemyOperacyjne.QueueChatSenders
import SystemyOperacyjne.QueueChatV
import SystemyOperacyjne.QueueChatTable
import SystemyOperacyjne.QueueChatIds
import SystemyOperacyjne.QueueChatForward
import SystemyOperacyjne.QueueChatWedge
import SystemyOperacyjne.ChatServerFraming
import SystemyOperacyjne.ChatServerProbe
import SystemyOperacyjne.ChatServerDescriptors
import SystemyOperacyjne.ChatServerIndex
import SystemyOperacyjne.ChatServerBusy
import SystemyOperacyjne.ChatServerProgress
import SystemyOperacyjne.ChatServerServed
import SystemyOperacyjne.ChatServerNames
import SystemyOperacyjne.ChatServerTraffic
import SystemyOperacyjne.ChatServerRelay
import SystemyOperacyjne.ChatServerAddress
import SystemyOperacyjne.ChatServerSizes
import SystemyOperacyjne.PrintQueueStartup
import SystemyOperacyjne.PrintQueueFaults
import SystemyOperacyjne.QueueChatInterrupted
import SystemyOperacyjne.Catcher
import SystemyOperacyjne.Collatz
import SystemyOperacyjne.Quadrature
import SystemyOperacyjne.LifeRule
import SystemyOperacyjne.Library.FileStream
import SystemyOperacyjne.Library.Reversal
import SystemyOperacyjne.ReverseCopy
import SystemyOperacyjne.Flipper
import SystemyOperacyjne.ChatClient
import SystemyOperacyjne.QuadraturePieces
import SystemyOperacyjne.Library.LittleEndian
import SystemyOperacyjne.QueueChatHeader
import SystemyOperacyjne.Library.Words
import SystemyOperacyjne.QueueChatTyped
import SystemyOperacyjne.Library.Family
import SystemyOperacyjne.Descendants
import SystemyOperacyjne.QuadratureWorkers
import SystemyOperacyjne.Library.NamedPipe
import SystemyOperacyjne.QuadratureService
import SystemyOperacyjne.Library.Journal
import SystemyOperacyjne.PrintQueueOutput
import SystemyOperacyjne.PrintQueueAnnounced
import SystemyOperacyjne.PrintQueuePrinted
import SystemyOperacyjne.QueueChatScreens
import SystemyOperacyjne.QueueChatSilent
import SystemyOperacyjne.LifeSymmetry
import SystemyOperacyjne.LifeLeftover
import SystemyOperacyjne.LifeScreen
import SystemyOperacyjne.SantaFinish
import SystemyOperacyjne.CatcherSenders
import SystemyOperacyjne.Library.Lines
import SystemyOperacyjne.ChatClientTyped
import SystemyOperacyjne.ChatServerMessages
import SystemyOperacyjne.ChatServerRounds
import SystemyOperacyjne.ChatServerOrigins
import SystemyOperacyjne.FlipperRuns
import SystemyOperacyjne.QueueChatShutdown
